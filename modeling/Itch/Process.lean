import Itch.HandleRules
import Mathlib.Logic.Function.Basic

namespace Itch

open Resources

/-- An object of a class that holds handles. -/
inductive Object where
  | largeBuffer (b : LargeBuffer)
  | itchFile (f : ItchFile)
  | udpReceiver (r : UdpReceiver)
  | xdpReceiver (s : XdpHandles)
  | perfCounters (c : PerfCounters)

inductive Constructor where
  | largeBuffer (bytes : Nat)
  | itchFile
  | udpReceiver
  | xdpReceiver
  | perfCounters

inductive Method where
  | openFile
  | openUdp (opt : UdpOptions)
  | closeUdp
  | openXdp (opt : XdpOpenOptions)
  | closeXdp
  | destroy

/-- A call of a process, on objects that it knows by numbers. -/
inductive ProcessCall where
  | construct (i : Nat) (c : Constructor)
  | invoke (i : Nat) (m : Method)
  | moveConstruct (i source : Nat)
  | moveAssign (i source : Nat)

namespace Object

def handles : Object → List Handle
  | .largeBuffer b => b.handles
  | .itchFile f => f.handles
  | .udpReceiver r => r.handles
  | .xdpReceiver s => s.handles
  | .perfCounters c => c.handles

/-- A constructor that throws leaves no object. -/
def construct : Constructor → Prog Handle (Option Object)
  | .largeBuffer bytes => (LargeBuffer.new bytes).bind fun b => .done (b.map .largeBuffer)
  | .itchFile => .done (some (.itchFile {}))
  | .udpReceiver => .done (some (.udpReceiver {}))
  | .xdpReceiver => .done (some (.xdpReceiver {}))
  | .perfCounters => PerfCounters.new.bind fun c => .done (some (.perfCounters c))

/-- A method leaves the object, but for its destructor. A class without the method has no such call. -/
def invoke : Object → Method → Prog Handle (Option Object)
  | .largeBuffer b, .destroy => b.release.bind fun _ => .done none
  | .itchFile f, .openFile => f.openFile.bind fun r => .done (some (.itchFile r.1))
  | .itchFile f, .destroy => f.unmap.bind fun _ => .done none
  | .udpReceiver r, .openUdp opt => (r.openSocket opt).bind fun r => .done (some (.udpReceiver r.1))
  | .udpReceiver r, .closeUdp => r.close.bind fun r => .done (some (.udpReceiver r))
  | .udpReceiver r, .destroy => r.close.bind fun _ => .done none
  | .xdpReceiver s, .openXdp opt => (s.openSocket opt).bind fun r => .done (some (.xdpReceiver r.1))
  | .xdpReceiver s, .closeXdp => s.close.bind fun s => .done (some (.xdpReceiver s))
  | .xdpReceiver s, .destroy => s.close.bind fun _ => .done none
  | .perfCounters c, .destroy => c.closeAll.bind fun _ => .done none
  | o, _ => .done (some o)

end Object

abbrev Objects := Nat → Option Object

namespace Objects

def set (s : Objects) (i : Nat) (o : Option Object) : Objects := Function.update s i o

/-- The object at `i` becomes what the program makes of it. -/
def put (s : Objects) (i : Nat) (p : Prog Handle (Option Object)) : Prog Handle Objects := p.bind fun o => .done (s.set i o)

/-- A call that no program makes does nothing. -/
def call (s : Objects) : ProcessCall → Prog Handle Objects
  | .construct i c => if (s i).isNone then s.put i (Object.construct c) else .done s
  | .invoke i m =>
    match s i with
    | none => .done s
    | some o => s.put i (o.invoke m)
  | .moveConstruct i source =>
    match s i, s source with
    | none, some (.largeBuffer o) =>
      let (new, left) := o.moved
      .done ((s.set source (some (.largeBuffer left))).set i (some (.largeBuffer new)))
    | _, _ => .done s
  | .moveAssign i source =>
    if i = source then .done s else
    match s i, s source with
    | some (.largeBuffer b), some (.largeBuffer o) => (b.assign o).bind fun (new, left) =>
      .done ((s.set source (some (.largeBuffer left))).set i (some (.largeBuffer new)))
    | _, _ => .done s

def run (s : Objects) : List ProcessCall → Prog Handle Objects
  | [] => .done s
  | c :: calls => (s.call c).bind fun s => s.run calls

/-- The handles of one object, if it is there. -/
def held (s : Objects) (i : Nat) : List Handle := (s i).elim [] Object.handles

/-- All that the objects hold. -/
def owned (s : Objects) : Set Handle := {h | ∃ i, h ∈ s.held i}

/-- No handle is held twice, and each object holds what its handles need. -/
structure Sound (s : Objects) : Prop where
  distinct : ∀ i, (s.held i).Nodup
  apart : ∀ i j, i ≠ j → ∀ h ∈ s.held i, h ∉ s.held j
  closed : ∀ i, Closed Handle.needs {h | h ∈ s.held i}

variable {s : Objects} {i : Nat}

theorem held_set (s : Objects) (i : Nat) (o : Option Object) (j : Nat) :
    (s.set i o).held j = if j = i then o.elim [] Object.handles else s.held j := by
  rw [held, set, Function.update_apply]
  split <;> rfl

theorem owned_without (s : Objects) (i : Nat) : s.owned = {h | h ∈ s.held i} ∪ (s.set i none).owned := by
  ext h
  constructor
  · rintro ⟨j, member⟩
    by_cases here : j = i
    · exact .inl (here ▸ member)
    · refine .inr ⟨j, ?_⟩
      rw [held_set, if_neg here]
      exact member
  · rintro (member | ⟨j, member⟩)
    · exact ⟨i, member⟩
    · rw [held_set] at member
      split at member
      · cases member
      · exact ⟨j, member⟩

theorem Sound.without (sound : s.Sound) (i : Nat) : (s.set i none).Sound := by
  refine ⟨fun j => ?_, fun j k other h member => ?_, fun j => ?_⟩
  · rw [held_set]
    split
    · exact List.nodup_nil
    · exact sound.distinct j
  · rw [held_set] at member ⊢
    split at member
    · cases member
    · split
      · exact List.not_mem_nil
      · exact sound.apart j k other h member
  · rw [held_set]
    split
    · exact setOf_nil ▸ closed_empty _
    · exact sound.closed j

theorem Sound.closed_owned (sound : s.Sound) : Closed Handle.needs s.owned := by
  rintro h ⟨i, member⟩ r need
  exact ⟨i, sound.closed i h member r need⟩

theorem Sound.apart_without (sound : s.Sound) (i : Nat) : Disjoint {h | h ∈ s.held i} (s.set i none).owned := by
  rw [Set.disjoint_left]
  rintro h member ⟨j, there⟩
  rw [held_set] at there
  split at there
  · cases there
  · rename_i other
    exact sound.apart j i other h there member

/-- An object that comes into a free place with handles of its own. -/
theorem Sound.fill (sound : s.Sound) (free : s i = none) {o : Option Object} {own : Set Handle}
    (owns : Owns (o.elim [] Object.handles) own) (closed : Closed Handle.needs own) (apart : Disjoint own s.owned) :
    (s.set i o).owned = own ∪ s.owned ∧ (s.set i o).Sound := by
  obtain ⟨rfl, distinct⟩ := owns
  have none : s.held i = [] := by
    rw [held, free]
    rfl
  have away : ∀ h ∈ (o.elim [] Object.handles : List Handle), ∀ j, h ∉ s.held j := fun h member j there =>
    Set.disjoint_left.mp apart member ⟨j, there⟩
  refine ⟨?_, fun j => ?_, fun j k other h member => ?_, fun j => ?_⟩
  · ext h
    constructor
    · rintro ⟨j, member⟩
      rw [held_set] at member
      split at member
      · exact .inl member
      · exact .inr ⟨j, member⟩
    · rintro (member | ⟨j, member⟩)
      · refine ⟨i, ?_⟩
        rw [held_set, if_pos rfl]
        exact member
      · refine ⟨j, ?_⟩
        rw [held_set, if_neg]
        · exact member
        · rintro rfl
          rw [none] at member
          cases member
  · rw [held_set]
    split
    · exact distinct
    · exact sound.distinct j
  · rw [held_set] at member ⊢
    split at member
    · rename_i here
      rw [if_neg fun there => other (here.trans there.symm)]
      exact away h member k
    · split
      · exact fun there => away h there j member
      · exact sound.apart j k other h member
  · rw [held_set]
    split
    · exact closed
    · exact sound.closed j

/-- The objects hold exactly what they own, with no handle twice. -/
def Accounted (s : Objects) (own : Set Handle) : Prop := own = s.owned ∧ s.Sound

theorem put_triple (sound : s.Sound) {p : Prog Handle (Option Object)}
    (triple : Triple Handle.needs {h | h ∈ s.held i} p fun o own => Owns (o.elim [] Object.handles) own) :
    Triple Handle.needs s.owned (s.put i p) Accounted := by
  rw [owned_without s i]
  refine .bind (triple.frame (sound.closed i) (sound.without i).closed_owned (sound.apart_without i)) fun o own => ?_
  rintro ⟨own', rfl, owns, closed, apart⟩
  have same : (s.set i none).set i o = s.set i o := Function.update_idem ..
  obtain ⟨owned, sound'⟩ := (sound.without i).fill (Function.update_self ..) owns closed apart
  rw [same] at owned sound'
  exact .done ⟨owned.symm, sound'⟩

/-- A buffer moves into a free place. -/
theorem Sound.moved (sound : s.Sound) {source : Nat} {o : LargeBuffer} (free : s i = none)
    (here : s source = some (.largeBuffer o)) :
    Accounted ((s.set source (some (.largeBuffer {}))).set i (some (.largeBuffer o))) s.owned := by
  have other : i ≠ source := by
    rintro rfl
    rw [free] at here
    cases here
  have held : s.held source = o.handles := by
    rw [Objects.held, here]
    rfl
  have emptied : (s.set source none).set source (some (.largeBuffer {})) = s.set source (some (.largeBuffer {})) :=
    Function.update_idem ..
  obtain ⟨owned, left⟩ := (sound.without source).fill (o := some (.largeBuffer {})) (Function.update_self ..) owns_nil
    (closed_empty _) (Set.empty_disjoint _)
  rw [emptied, Set.empty_union] at owned
  rw [emptied] at left
  have vacant : s.set source (some (.largeBuffer {})) i = none := (Function.update_of_ne other ..).trans free
  have owns : Owns o.handles {h | h ∈ s.held source} := held ▸ ⟨rfl, sound.distinct source⟩
  obtain ⟨all, kept⟩ := left.fill (o := some (.largeBuffer o)) vacant owns (sound.closed source)
    (owned ▸ sound.apart_without source)
  refine ⟨?_, kept⟩
  rw [all, owned, ← owned_without]

end Objects

namespace Object

/-- A destructor leaves nothing. -/
theorem gone {σ : Type} {own : Set Handle} {p : Prog Handle σ} {R : σ → Prop}
    (triple : Triple Handle.needs own p fun a own => R a ∧ own = ∅) :
    Triple Handle.needs own (p.bind fun _ => .done none) fun (o : Option Object) own => Owns (o.elim [] handles) own := by
  refine .bind triple fun a own => ?_
  rintro ⟨-, rfl⟩
  exact .done owns_nil

/-- A method leaves what its class says. -/
theorem kept {σ : Type} {own : Set Handle} {p : Prog Handle σ} (f : σ → Object) {post : σ → Set Handle → Prop}
    (triple : Triple Handle.needs own p post) (owns : ∀ a own, post a own → Owns (f a).handles own) :
    Triple Handle.needs own (p.bind fun a => .done (some (f a))) fun o own => Owns (o.elim [] handles) own :=
  .bind triple fun a own holds => .done (owns a own holds)

theorem construct_triple (c : Constructor) :
    Triple Handle.needs ∅ (construct c) fun o own => Owns (o.elim [] handles) own := by
  cases c with
  | largeBuffer bytes =>
    refine .bind (LargeBuffer.new_triple bytes) fun b own owns => .done ?_
    cases b <;> exact owns
  | itchFile => exact .done owns_nil
  | udpReceiver => exact .done owns_nil
  | xdpReceiver => exact .done owns_nil
  | perfCounters => exact kept _ PerfCounters.new_triple fun _ _ owns => owns

theorem invoke_triple (o : Object) (distinct : o.handles.Nodup) (m : Method) :
    Triple Handle.needs {h | h ∈ o.handles} (o.invoke m) fun o own => Owns (o.elim [] handles) own := by
  have unchanged : Triple Handle.needs {h | h ∈ o.handles} (.done (some o)) fun o own => Owns (o.elim [] handles) own :=
    .done ⟨rfl, distinct⟩
  cases o with
  | largeBuffer b =>
    cases m with
    | destroy => exact gone b.release_triple
    | _ => exact unchanged
  | itchFile f =>
    cases m with
    | openFile => exact kept (fun r : ItchFile × Option String => .itchFile r.1) f.openFile_triple fun _ _ owns => owns
    | destroy => exact gone f.unmap_triple
    | _ => exact unchanged
  | udpReceiver r =>
    cases m with
    | openUdp opt => exact kept (fun r : UdpReceiver × Option String => .udpReceiver r.1) (r.openSocket_triple opt) fun _ _ owns => owns.1
    | closeUdp =>
      refine kept .udpReceiver r.close_triple ?_
      rintro r own ⟨none, rfl⟩
      show Owns r.handles ∅
      rw [none]
      exact owns_nil
    | destroy => exact gone r.close_triple
    | _ => exact unchanged
  | xdpReceiver s =>
    cases m with
    | openXdp opt => exact kept (fun r : XdpHandles × Option String => .xdpReceiver r.1) (s.openSocket_triple opt) fun _ _ owns => owns
    | closeXdp =>
      refine kept .xdpReceiver s.close_triple ?_
      rintro s own ⟨rfl, rfl⟩
      exact owns_nil
    | destroy => exact gone s.close_triple
    | _ => exact unchanged
  | perfCounters c =>
    cases m with
    | destroy => exact gone (PerfCounters.closeAll_triple distinct)
    | _ => exact unchanged

end Object

namespace Objects

variable {s : Objects}

/-- The step: one call of the process. -/
theorem call_triple (sound : s.Sound) (c : ProcessCall) : Triple Handle.needs s.owned (s.call c) Accounted := by
  have unchanged : Triple Handle.needs s.owned (.done s) Accounted := .done ⟨rfl, sound⟩
  cases c with
  | construct i c =>
    rw [call]
    split
    · rename_i free
      refine put_triple sound ?_
      have none : s.held i = [] := by
        rw [held, Option.isNone_iff_eq_none.mp free]
        rfl
      rw [none, setOf_nil]
      exact Object.construct_triple c
    · exact unchanged
  | invoke i m =>
    rw [call]
    cases here : s i with
    | none => exact unchanged
    | some o =>
      refine put_triple sound ?_
      have own : s.held i = o.handles := by
        rw [held, here]
        rfl
      rw [own]
      exact o.invoke_triple (own ▸ sound.distinct i) m
  | moveConstruct i source =>
    rw [call]
    split
    · rename_i free here
      exact .done (sound.moved free here)
    · exact unchanged
  | moveAssign i source =>
    rw [call]
    split
    · exact unchanged
    · rename_i other
      split
      · rename_i b o there here
        have own : s.held i = b.handles := by
          rw [held, there]
          rfl
        have source' : s.set i none source = some (.largeBuffer o) :=
          (Function.update_of_ne (Ne.symm other) ..).trans here
        have moved := (sound.without i).moved (Function.update_self ..) source'
        have same : ((s.set i none).set source (some (.largeBuffer {}))).set i (some (.largeBuffer o)) =
            (s.set source (some (.largeBuffer {}))).set i (some (.largeBuffer o)) := by
          funext j
          simp only [set, Function.update_apply]
          split <;> rfl
        rw [owned_without s i, own]
        have released : Triple Handle.needs {h | h ∈ b.handles} (b.assign o) fun r own => r = (o, {}) ∧ own = ∅ := by
          refine .bind b.release_triple fun _ own => ?_
          rintro ⟨-, rfl⟩
          exact .done ⟨rfl, rfl⟩
        refine .bind (released.frame (own ▸ sound.closed i) (sound.without i).closed_owned (own ▸ sound.apart_without i))
          fun r all => ?_
        rintro ⟨_, rfl, ⟨rfl, rfl⟩, -⟩
        rw [Set.empty_union]
        exact .done (same ▸ moved)
      · exact unchanged

/-- The run: any calls. -/
theorem run_triple (sound : s.Sound) (calls : List ProcessCall) : Triple Handle.needs s.owned (s.run calls) Accounted := by
  induction calls generalizing s with
  | nil => exact .done ⟨rfl, sound⟩
  | cons c calls ih =>
    refine .bind (call_triple sound c) fun t own => ?_
    rintro ⟨rfl, sound'⟩
    exact ih sound'

def none : Objects := fun _ => Option.none

theorem none_sound : none.Sound where
  distinct _ := List.nodup_nil
  apart _ _ _ _ := fun member => absurd member List.not_mem_nil
  closed _ := setOf_nil ▸ closed_empty _

theorem owned_none : none.owned = ∅ := by
  refine Set.eq_empty_of_forall_notMem ?_
  rintro h ⟨i, member⟩
  cases member

/-- Whatever calls a process makes on its buffers, files, receivers and counters, and whichever
calls of the system fail, it gives nothing back twice or while something still needs it, no two
objects hold one handle, and what is held is what its objects hold. -/
theorem handles_accounted {calls : List ProcessCall} {out : Option (Objects × Set Handle)}
    (run : Exec Handle.needs (none.run calls) ∅ out) :
    ∃ s own, out = some (s, own) ∧ own = s.owned ∧ s.Sound ∧ (s = none → own = ∅) := by
  have triple := run_triple none_sound calls
  rw [owned_none] at triple
  obtain ⟨s, own, same, rfl, sound⟩ := triple.run run
  refine ⟨s, s.owned, same, rfl, sound, ?_⟩
  rintro rfl
  exact owned_none

/-- A file that cannot be mapped: its descriptor is closed. -/
theorem handles_accounted_sample : ∃ s own, some ((none.set 0 (some (.itchFile {}))).set 0 (some (.itchFile {})), (∅ : Set Handle)) =
    some (s, own) ∧ own = s.owned ∧ s.Sound ∧ (s = none → own = ∅) := by
  have closed : insert (Handle.fd 3) (∅ : Set Handle) \ {.fd 3} = ∅ := by simp
  have run : Exec Handle.needs (none.run [.construct 0 .itchFile, .invoke 0 .openFile]) ∅
      (some ((none.set 0 (some (.itchFile {}))).set 0 (some (.itchFile {})), ∅)) := by
    refine .granted (n := 3) (Set.notMem_empty _) (fun r need => ?_) (.answered (some 100) (.refused (.released ?_ ?_ ?_)))
    · cases need
    · exact Set.mem_insert ..
    · rintro s (rfl | member)
      · exact Handle.needs_irrefl _
      · cases member
    · rw [closed]
      exact .done ..
  exact handles_accounted run

end Objects

end Itch
