import Itch.Handles

namespace Itch

open Resources

/-- Exactly these handles, each once. -/
def Owns (l : List Handle) (own : Set Handle) : Prop := own = {h | h ∈ l} ∧ l.Nodup

theorem owns_nil : Owns [] ∅ := ⟨(Set.eq_empty_of_forall_notMem fun _ => List.not_mem_nil).symm, List.nodup_nil⟩

theorem setOf_nil : {h : Handle | h ∈ []} = ∅ := owns_nil.1.symm

theorem Owns.perm {l l' : List Handle} {own : Set Handle} (owns : Owns l own) (perm : l.Perm l') : Owns l' own := by
  refine ⟨owns.1.trans ?_, perm.nodup owns.2⟩
  ext h
  exact perm.mem_iff

theorem Handle.needs_irrefl (h : Handle) : h.needs ≠ some h := by
  cases h <;> simp [needs]

/-- A call that fails with its error, or goes on. -/
theorem check_triple {σ : Type} {own : Set Handle} {wanted : Bool} {s : σ} {what : String}
    {next : Prog Handle (σ × Option String)} {post : σ × Option String → Set Handle → Prop} (failed : post (s, some what) own)
    (rest : Triple Handle.needs own next post) : Triple Handle.needs own (check wanted s what next) post := by
  rw [check]
  split
  · refine .ask fun x => ?_
    cases x with
    | none => exact .done failed
    | some answer => exact rest
  · exact rest

/-- A handle that stands alone is given back. -/
theorem release_one {α : Type} {h : Handle} {a : α} {post : α → Set Handle → Prop} (holds : post a ∅) :
    Triple Handle.needs {r | r ∈ [h]} (.release h (.done a)) post := by
  refine .release_list (List.nodup_singleton h) (List.mem_singleton_self h) (fun s member => ?_) ?_
  · rw [List.mem_singleton.mp member]
    exact h.needs_irrefl
  · rw [List.erase_cons_head, setOf_nil]
    exact .done holds

namespace LargeBuffer

theorem new_triple (bytes : Nat) : Triple Handle.needs ∅ (new bytes) fun b own => Owns ((b.map handles).getD []) own := by
  rw [new]
  split
  · exact .done owns_nil
  · rw [← setOf_nil]
    refine .acquire_list (fun n r need => ?_) ?_ fun p _ => ?_
    · cases need
    · rw [setOf_nil]
      exact .done owns_nil
    · exact .done ⟨rfl, List.nodup_singleton _⟩

theorem release_triple (b : LargeBuffer) : Triple Handle.needs {h | h ∈ b.handles} b.release fun b' own =>
    b'.handles = [] ∧ own = ∅ := by
  obtain ⟨ptr, bytes⟩ := b
  cases ptr with
  | none =>
    show Triple Handle.needs {h | h ∈ []} _ _
    rw [setOf_nil]
    exact .done ⟨rfl, rfl⟩
  | some p => exact release_one ⟨rfl, rfl⟩

end LargeBuffer

namespace ItchFile

theorem unmap_triple (f : ItchFile) : Triple Handle.needs {h | h ∈ f.handles} f.unmap fun f' own =>
    f'.handles = [] ∧ own = ∅ := by
  obtain ⟨data, size⟩ := f
  cases data with
  | none =>
    show Triple Handle.needs {h | h ∈ []} _ _
    rw [setOf_nil]
    exact .done ⟨rfl, rfl⟩
  | some p => exact release_one ⟨rfl, rfl⟩

/-- Whatever fails, the descriptor is closed and at most the new mapping is left. -/
theorem openFile_triple (f : ItchFile) : Triple Handle.needs {h | h ∈ f.handles} f.openFile fun r own => Owns r.1.handles own := by
  refine .bind f.unmap_triple fun f own => ?_
  rintro ⟨none, rfl⟩
  have failed : ∀ what : String, Owns ((f, some what) : ItchFile × Option String).1.handles ∅ := by
    intro what
    rw [none]
    exact owns_nil
  rw [← setOf_nil]
  refine .acquire_list (fun n r need => ?_) ?_ fun fd _ => .ask fun x => ?_
  · cases need
  · rw [setOf_nil]
    exact .done (failed "open")
  cases x with
  | none => exact release_one (failed "fstat")
  | some stSize =>
    dsimp only
    split
    · exact release_one (failed "file is empty")
    refine .acquire_list (fun n r need => ?_) ?_ fun p fresh => ?_
    · cases need
    · exact release_one (failed "mmap")
    · refine .release_list (List.nodup_cons.mpr ⟨fresh, List.nodup_singleton _⟩) (by simp) (fun s member => ?_) ?_
      · rcases List.mem_pair.mp member with rfl | rfl <;> simp [Handle.needs]
      · rw [List.erase_cons_tail (by simp), List.erase_cons_head]
        exact .done ⟨rfl, List.nodup_singleton _⟩

end ItchFile

namespace UdpReceiver

theorem close_triple (r : UdpReceiver) : Triple Handle.needs {h | h ∈ r.handles} r.close fun r' own =>
    r'.handles = [] ∧ own = ∅ := by
  obtain ⟨fd, port⟩ := r
  cases fd with
  | none =>
    show Triple Handle.needs {h | h ∈ []} _ _
    rw [setOf_nil]
    exact .done ⟨rfl, rfl⟩
  | some fd => exact release_one ⟨rfl, rfl⟩

/-- A configuration, done or failed, keeps the socket. -/
theorem configure_triple (r : UdpReceiver) (opt : UdpOptions) :
    Triple Handle.needs {h | h ∈ r.handles} (r.configure opt) fun r' own => r'.1.handles = r.handles ∧ own = {h | h ∈ r.handles} := by
  have kept : ∀ (port : UInt16) (what : Option String), (({ r with boundPort := port }, what) : UdpReceiver × Option String).1.handles =
      r.handles ∧ {h | h ∈ r.handles} = {h | h ∈ r.handles} := fun port what => ⟨rfl, rfl⟩
  refine check_triple (kept r.boundPort _) (check_triple (kept r.boundPort _) (check_triple (kept r.boundPort _)
    (check_triple (kept r.boundPort _) (.ask fun name => ?_))))
  cases name with
  | none =>
    exact check_triple (kept r.boundPort _) (check_triple (kept r.boundPort _) (check_triple (kept r.boundPort _)
      (.done (kept r.boundPort _))))
  | some port => exact check_triple (kept _ _) (check_triple (kept _ _) (check_triple (kept _ _) (.done (kept _ _))))

/-- A socket is left open only if it is configured. -/
theorem openSocket_triple (r : UdpReceiver) (opt : UdpOptions) :
    Triple Handle.needs {h | h ∈ r.handles} (r.openSocket opt) fun r' own =>
      Owns r'.1.handles own ∧ (r'.2.isSome → r'.1.handles = []) := by
  refine .bind r.close_triple fun r own => ?_
  rintro ⟨none, rfl⟩
  rw [← setOf_nil]
  refine .acquire_list (fun n r need => ?_) ?_ fun fd _ => ?_
  · cases need
  · rw [setOf_nil]
    refine .done ⟨?_, fun _ => none⟩
    rw [none]
    exact owns_nil
  refine .bind (configure_triple { r with fd := some fd } opt) fun r' own => ?_
  obtain ⟨r', failed⟩ := r'
  rintro ⟨same, rfl⟩
  rw [← same]
  cases failed with
  | none =>
    refine .done ⟨⟨rfl, ?_⟩, fun failed => ?_⟩
    · rw [same]
      exact List.nodup_singleton _
    · cases failed
  | some err =>
    refine .bind r'.close_triple fun r'' own => ?_
    rintro ⟨none, rfl⟩
    refine .done ⟨?_, fun _ => none⟩
    rw [none]
    exact owns_nil

end UdpReceiver

namespace XdpHandles

theorem handles_nodup (s : XdpHandles) : s.handles.Nodup := by
  obtain ⟨obj, attached, umemArea, umemSize, umem, xsk, mcastFd⟩ := s
  cases obj <;> cases umemArea <;> cases umem <;> cases xsk <;> cases mcastFd <;> simp [handles, XskUmem.handle, Xsk.handle]

/-- The socket goes before its UMEM and the UMEM before its area. -/
theorem handles_ordered (s : XdpHandles) : s.handles.Pairwise fun r t => t.needs ≠ some r := by
  obtain ⟨obj, attached, umemArea, umemSize, umem, xsk, mcastFd⟩ := s
  cases obj <;> cases umemArea <;> cases umem <;> cases xsk <;> cases mcastFd <;>
    simp [handles, XskUmem.handle, Xsk.handle, Handle.needs]

theorem owns (s : XdpHandles) : Owns s.handles {h | h ∈ s.handles} := ⟨rfl, s.handles_nodup⟩

theorem close_triple (s : XdpHandles) : Triple Handle.needs {h | h ∈ s.handles} s.close fun s' own =>
    s' = { umemSize := s.umemSize } ∧ own = ∅ := by
  have given : Triple Handle.needs {h | h ∈ s.handles} (.releaseAll s.handles (.done ({ umemSize := s.umemSize } : XdpHandles)))
      fun s' own => s' = { umemSize := s.umemSize } ∧ own = ∅ :=
    .releaseAll s.handles_nodup s.handles_ordered (fun h _ => h.needs_irrefl) (.done ⟨rfl, rfl⟩)
  rw [close]
  split
  · exact .ask fun _ => given
  · exact given

/-- Wherever it stops, the receiver has what has been set up so far. -/
theorem openSocket_triple (s : XdpHandles) (opt : XdpOpenOptions) :
    Triple Handle.needs {h | h ∈ s.handles} (s.openSocket opt) fun r own => Owns r.1.handles own := by
  refine .bind s.close_triple fun closed own => ?_
  rintro ⟨rfl, rfl⟩
  split
  · exact .done owns_nil
  refine check_triple owns_nil ?_
  rw [← setOf_nil]
  refine .acquire_list (fun n r need => ?_) ?_ fun obj _ => ?_
  · cases need
  · rw [setOf_nil]
    exact .done owns_nil
  have loaded : ∀ size, Owns (handles { obj := some obj, umemSize := size }) {h | h ∈ [Handle.bpfObject obj]} :=
    fun size => owns { obj := some obj, umemSize := size }
  refine check_triple (loaded _) (check_triple (loaded _) (check_triple (loaded _) (check_triple (loaded _) ?_)))
  dsimp only
  generalize opt.frames.toNat * opt.frameSize.toNat = size
  refine .acquire_list (fun n r need => ?_) (.done (loaded size)) fun area _ => ?_
  · cases need
  refine .acquire_list (fun n r need => ?_) (.done ?_) fun ptr _ => ?_
  · obtain rfl := Option.mem_some.mp need
    exact List.mem_cons_self
  · exact owns { obj := some obj, umemSize := size, umemArea := some area }
  refine .acquire_list (fun n r need => ?_) (.done ?_) fun xsk _ => ?_
  · obtain rfl := Option.mem_some.mp need
    exact List.mem_cons_self
  · exact owns { obj := some obj, umemSize := size, umemArea := some area, umem := some ⟨ptr, area, size⟩ }
  have bound : ∀ attached, Owns (handles
      { obj := some obj, attached, umemSize := size, umemArea := some area, umem := some ⟨ptr, area, size⟩,
        xsk := some ⟨xsk, ptr, area, size⟩ })
      {h | h ∈ [Handle.xsk xsk ptr area size, .umem ptr area size, .mapping area size, .bpfObject obj]} :=
    fun attached => owns
      { obj := some obj, attached, umemSize := size, umemArea := some area, umem := some ⟨ptr, area, size⟩,
        xsk := some ⟨xsk, ptr, area, size⟩ }
  refine check_triple (bound false) (check_triple (bound false) (check_triple (bound false) ?_))
  split
  · exact .done (bound true)
  refine .acquire_list (fun n r need => ?_) (.done (bound true)) fun fd _ => ?_
  · cases need
  have joined : Owns (handles
      { obj := some obj, attached := true, umemSize := size, umemArea := some area, umem := some ⟨ptr, area, size⟩,
        xsk := some ⟨xsk, ptr, area, size⟩, mcastFd := some fd })
      {h | h ∈ [Handle.fd fd, .xsk xsk ptr area size, .umem ptr area size, .mapping area size, .bpfObject obj]} :=
    owns { obj := some obj, attached := true, umemSize := size, umemArea := some area, umem := some ⟨ptr, area, size⟩,
           xsk := some ⟨xsk, ptr, area, size⟩, mcastFd := some fd }
  exact check_triple joined (.done joined)

end XdpHandles

namespace PerfCounters

/-- Descriptors need nothing. -/
theorem handles_plain (c : PerfCounters) : ∀ h ∈ c.handles, h.needs = none := by
  obtain ⟨leader, ref, instr, error⟩ := c
  cases leader <;> cases ref <;> cases instr <;> simp [handles, Handle.needs]

theorem closeAll_triple {c : PerfCounters} (distinct : c.handles.Nodup) :
    Triple Handle.needs {h | h ∈ c.handles} c.closeAll fun c' own => c'.handles = [] ∧ own = ∅ := by
  have free : ∀ h ∈ c.handles, ∀ r, h.needs ≠ some r := by
    intro h member r
    rw [c.handles_plain h member]
    exact (Option.some_ne_none r).symm
  refine .releaseAll distinct ?_ (fun h member => free h member h) (.done ⟨rfl, rfl⟩)
  exact List.pairwise_of_forall_mem_list fun r _ h member => free h member r

theorem new_triple : Triple Handle.needs ∅ new fun c own => Owns c.handles own := by
  rw [← setOf_nil]
  refine .acquire_list (fun n r need => ?_) ?_ fun leader _ => ?_
  · cases need
  · rw [setOf_nil]
    exact .done owns_nil
  refine .acquire_list (fun n r need => ?_) ?_ fun instr fresh => ?_
  · cases need
  · refine .imp (@closeAll_triple { leader := some leader, error := _ } (List.nodup_singleton _)) fun c own => ?_
    rintro ⟨none, rfl⟩
    rw [none]
    exact owns_nil
  have two : [Handle.fd instr, .fd leader].Nodup := List.nodup_cons.mpr ⟨fresh, List.nodup_singleton _⟩
  refine .acquire_list (fun n r need => ?_) (.done ⟨rfl, two⟩) fun ref fresh => .done ?_
  · cases need
  · exact Owns.perm ⟨rfl, List.nodup_cons.mpr ⟨fresh, two⟩⟩ (List.Perm.swap ..)

end PerfCounters

end Itch
