import Itch.UdpFrameAccepted
import Itch.XdpFilter
import Itch.XdpReceiver
import Mathlib.Data.List.Nodup

namespace Itch

namespace XdpReceiver

variable (u : Umem) (x : Libxdp)

/-- How often the chunk `c` is in the fill ring, with the kernel, in the rx ring and pending. -/
def places (s : XdpReceiver) (c : Nat) : Nat :=
  (s.fill.map u.chunk).count c + s.kernel.count c + (s.rx.map fun d => u.chunk (x.extractAddr d.addr)).count c +
    (s.pending.map u.chunk).count c

/-- The payload of a packet lies in a pending frame. -/
def Exposed (s : XdpReceiver) (i : Nat) : Prop :=
  ∃ addr ∈ s.pending, u.chunk addr * u.frameSize ≤ (s.packets i).data ∧
    (s.packets i).data + (s.packets i).len ≤ (u.chunk addr + 1) * u.frameSize

/-- What holds of the batch in each phase of a poll. -/
def Batch (s : XdpReceiver) : Prop :=
  match s.phase with
  | .idle => s.pending.length ≤ kBatch ∧ ∀ i < s.result, s.Exposed u i
  | .filling i => s.pending.length ≤ kBatch ∧ s.slots = s.pending.take i ∧ i ≤ s.pending.length
  | .peeking => s.pending = []
  | .receiving rcvd i out _ => rcvd ≤ kBatch ∧ i ≤ rcvd ∧ s.pending.length = i ∧ rcvd ≤ i + s.rx.length ∧
      ∀ i < out, s.Exposed u i

structure Owned (s : XdpReceiver) : Prop where
  once : ∀ c, s.places u x c = if c < u.frames then 1 else 0
  batch : s.Batch u
  inside : ∀ d ∈ s.rx, d.Of u x (u.chunk (x.extractAddr d.addr))

variable {u x} {s : XdpReceiver}

theorem chunk_mul (c : Nat) : u.chunk (c * u.frameSize) = c := Nat.mul_div_cancel _ u.positive

theorem owned_opened (mem : Nat → UInt8) : (opened u mem).Owned u x := by
  refine ⟨fun c => ?_, ⟨Nat.zero_le _, fun i less => absurd less (Nat.not_lt_zero i)⟩, fun d member => by cases member⟩
  have chunks : ((opened u mem).fill.map u.chunk) = List.range u.frames := by
    rw [opened, List.map_map]
    exact (List.map_congr_left fun c _ => chunk_mul c).trans (List.map_id _)
  have here : (opened u mem).places u x c = (List.range u.frames).count c := by
    rw [places, chunks]
    rfl
  rw [here]
  split
  · rename_i inside
    exact List.count_eq_one_of_mem List.nodup_range (List.mem_range.mpr inside)
  · rename_i outside
    exact List.count_eq_zero_of_not_mem fun member => outside (List.mem_range.mp member)

/-- A payload stays exposed while its packet stays and no frame leaves the batch. -/
theorem Exposed.mono {t : XdpReceiver} {i : Nat} (exposed : s.Exposed u i) (keeps : ∀ addr ∈ s.pending, addr ∈ t.pending)
    (same : t.packets i = s.packets i) : t.Exposed u i := by
  obtain ⟨addr, member, start, stop⟩ := exposed
  refine ⟨addr, keeps addr member, ?_, ?_⟩ <;> rwa [same]

/-- What the kernel leaves alone. -/
structure SameProgram (s t : XdpReceiver) : Prop where
  slots : t.slots = s.slots
  pending : t.pending = s.pending
  packets : t.packets = s.packets
  phase : t.phase = s.phase
  result : t.result = s.result

theorem Batch.of_kernel {t : XdpReceiver} (batch : s.Batch u) (same : s.SameProgram t) (more : s.rx.length ≤ t.rx.length) :
    t.Batch u := by
  obtain ⟨slots, pending, packets, phase, result⟩ := same
  have exposed : ∀ i, s.Exposed u i → t.Exposed u i := fun i here =>
    here.mono (fun addr member => pending ▸ member) (congrFun packets i)
  unfold Batch at batch ⊢
  rw [phase, pending, slots, result]
  cases here : s.phase with
  | idle =>
    rw [here] at batch
    exact ⟨batch.1, fun i less => exposed i (batch.2 i less)⟩
  | filling i =>
    rw [here] at batch
    exact batch
  | peeking =>
    rw [here] at batch
    exact batch
  | receiving rcvd i out now =>
    rw [here] at batch
    obtain ⟨few, le, length, ready, shown⟩ := batch
    exact ⟨few, le, length, by omega, fun j less => exposed j (shown j less)⟩

/-- An accepted frame has its payload inside. -/
theorem payload_inside {frame : Nat} {bytes : List UInt8} {out : UdpView}
    (ok : ((parseUdpFrameReads frame bytes.length out).value bytes).1 = none) :
    frame ≤ ((parseUdpFrameReads frame bytes.length out).value bytes).2.payload ∧
      ((parseUdpFrameReads frame bytes.length out).value bytes).2.payload +
        ((parseUdpFrameReads frame bytes.length out).value bytes).2.len ≤ frame + bytes.length := by
  obtain ⟨f, rfl⟩ := (parseUdpFrame_ok_iff frame out bytes).mp ok
  obtain ⟨-, after, before⟩ := f.view_payload frame
  have last := f.ipEnd_le
  rw [f.value_bytes frame out]
  dsimp only
  omega

section Program

variable (owned : s.Owned u x)
include owned

theorem owned_reserve (granted : Nat) (phase : s.phase = .idle) : (s.reserve granted).Owned u x := by
  obtain ⟨once, batch, inside⟩ := owned
  rw [Batch, phase] at batch
  unfold reserve
  split
  · split
    · exact ⟨once, ⟨batch.1, rfl, Nat.zero_le _⟩, inside⟩
    · exact ⟨once, ⟨batch.1, fun i less => absurd less (Nat.not_lt_zero i)⟩, inside⟩
  · rename_i none
    exact ⟨once, List.eq_nil_of_length_eq_zero (not_not.mp none), inside⟩

theorem owned_fillAddr {i : Nat} (phase : s.phase = .filling i) (more : i < s.pending.length) :
    (s.fillAddr i s.pending[i]).Owned u x := by
  obtain ⟨once, batch, inside⟩ := owned
  rw [Batch, phase] at batch
  obtain ⟨few, slots, -⟩ := batch
  refine ⟨once, ⟨few, ?_, more⟩, inside⟩
  change s.slots ++ [s.pending[i]] = _
  rw [slots, List.take_append_getElem]
  rfl

theorem owned_submit (phase : s.phase = .filling s.pending.length) : s.submit.Owned u x := by
  obtain ⟨once, batch, inside⟩ := owned
  rw [Batch, phase] at batch
  have slots : s.slots = s.pending := batch.2.1.trans (List.take_length ..)
  refine ⟨fun c => ?_, rfl, inside⟩
  have here := once c
  simp only [places, submit, slots, List.map_append, List.count_append, List.map_nil, List.count_nil] at here ⊢
  omega

theorem owned_peek {rcvd : Nat} (now : Nat) (phase : s.phase = .peeking) (few : rcvd ≤ kBatch) (ready : rcvd ≤ s.rx.length) :
    (s.peek rcvd now).Owned u x := by
  obtain ⟨once, batch, inside⟩ := owned
  rw [Batch, phase] at batch
  have none : s.pending.length = 0 := by rw [batch, List.length_nil]
  unfold peek
  split
  · exact ⟨once, ⟨none.trans_le (Nat.zero_le _), fun i less => absurd less (Nat.not_lt_zero i)⟩, inside⟩
  · exact ⟨once, ⟨few, Nat.zero_le _, none, ready.trans_eq (Nat.zero_add _).symm, fun i less => absurd less (Nat.not_lt_zero i)⟩, inside⟩

theorem owned_release {rcvd out now : Nat} (phase : s.phase = .receiving rcvd rcvd out now) :
    (s.release rcvd out).Owned u x := by
  obtain ⟨once, batch, inside⟩ := owned
  rw [Batch, phase] at batch
  obtain ⟨few, -, length, -, exposed⟩ := batch
  exact ⟨once, ⟨length ▸ few, exposed⟩, inside⟩

theorem owned_receive {rcvd i out now : Nat} {d : XdpDesc} {rx : List XdpDesc} (phase : s.phase = .receiving rcvd i out now)
    (more : i < rcvd) (next : s.rx = d :: rx) : (s.receive x rcvd i out now d rx).Owned u x := by
  obtain ⟨once, batch, inside⟩ := owned
  rw [Batch, phase, next] at batch
  obtain ⟨few, -, length, ready, exposed⟩ := batch
  rw [next] at inside
  obtain ⟨of, inside⟩ := List.forall_mem_cons.mp inside
  have move : ∀ c, (s.fill.map u.chunk).count c + s.kernel.count c + (rx.map fun d => u.chunk (x.extractAddr d.addr)).count c +
      ((s.pending ++ [x.extractAddr d.addr]).map u.chunk).count c = if c < u.frames then 1 else 0 := by
    intro c
    have here := once c
    simp only [places, next, List.map_cons, List.count_cons, List.map_append, List.count_append, List.map_nil,
      List.count_nil] at here ⊢
    omega
  have length' : (s.pending ++ [x.extractAddr d.addr]).length = i + 1 := by
    rw [List.length_append, length, List.length_singleton]
  rw [List.length_cons] at ready
  have kept : ∀ addr ∈ s.pending, addr ∈ s.pending ++ [x.extractAddr d.addr] := fun addr => List.mem_append_left _
  unfold receive
  dsimp only
  split
  · exact ⟨move, ⟨few, more, length', by dsimp only; omega, fun i less => (exposed i less).mono kept rfl⟩, inside⟩
  · rename_i ok
    refine ⟨move, ⟨few, more, length', by dsimp only; omega, fun j less => ?_⟩, inside⟩
    rcases Nat.lt_succ_iff_lt_or_eq.mp less with earlier | rfl
    · exact (exposed j earlier).mono kept (Function.update_of_ne (Nat.ne_of_lt earlier) ..)
    · have bytes : (s.bytes (x.addOffsetToAddr d.addr) d.len).length = d.len := by
        rw [XdpReceiver.bytes, List.length_map, List.length_range]
      obtain ⟨start, stop⟩ := payload_inside (by rw [bytes]; exact not_not.mp ok)
      rw [bytes] at start stop
      refine ⟨x.extractAddr d.addr, List.mem_append_right _ (List.mem_singleton_self _), ?_, ?_⟩
      · dsimp only
        rw [Function.update_self]
        exact of.start.trans start
      · dsimp only
        rw [Function.update_self]
        exact stop.trans of.stop

end Program

section Kernel

variable (owned : s.Owned u x)
include owned

theorem owned_take {addr : Nat} {fill : List Nat} (next : s.fill = addr :: fill) :
    XdpReceiver.Owned u x { s with fill, kernel := u.chunk addr :: s.kernel } := by
  refine ⟨fun c => ?_, owned.batch, owned.inside⟩
  have here := owned.once c
  simp only [places, next, List.map_cons, List.count_cons] at here ⊢
  omega

theorem owned_publish {c : Nat} {before after : List Nat} {d : XdpDesc} (has : s.kernel = before ++ c :: after)
    (of : d.Of u x c) : XdpReceiver.Owned u x { s with kernel := before ++ after, rx := s.rx ++ [d] } := by
  obtain ⟨once, batch, inside⟩ := owned
  refine ⟨fun k => ?_, ?_, ?_⟩
  · have here := once k
    simp only [places, has, List.count_append, List.count_cons, List.map_append, List.map_cons, List.map_nil, List.count_nil,
      of.chunk] at here ⊢
    omega
  · exact batch.of_kernel ⟨rfl, rfl, rfl, rfl, rfl⟩ (List.length_append ▸ Nat.le_add_right ..)
  · intro d' member
    rcases List.mem_append.mp member with old | new
    · exact inside d' old
    · obtain rfl := List.mem_singleton.mp new
      rwa [of.chunk]

end Kernel

theorem owned_step {turn : XdpTurn} {t : XdpReceiver} (owned : s.Owned u x) (step : XdpStep u x s turn t) : t.Owned u x := by
  cases step with
  | reserve granted phase grant => exact owned_reserve owned granted phase
  | fillAddr phase more => exact owned_fillAddr owned phase more
  | submit phase => exact owned_submit owned phase
  | peek rcvd now phase batch ready => exact owned_peek owned now phase batch ready
  | receive phase more next => exact owned_receive owned phase more next
  | release phase => exact owned_release owned phase
  | take next => exact owned_take owned next
  | write has elsewhere => exact ⟨owned.once, owned.batch, owned.inside⟩
  | publish has of => exact owned_publish owned has of

/-- The frames of a receiver in any reachable state. -/
theorem owned_reachable {mem : Nat → UInt8} (reach : Reachable (opened u mem) (XdpStep u x) s) : s.Owned u x :=
  reach.invariant (Owned u x) (owned_opened mem) fun _ _ _ => owned_step

theorem Owned.pending_le (owned : s.Owned u x) : s.pending.length ≤ kBatch := by
  have batch := owned.batch
  unfold Batch at batch
  cases phase : s.phase with
  | idle =>
    rw [phase] at batch
    exact batch.1
  | filling i =>
    rw [phase] at batch
    exact batch.1
  | peeking =>
    rw [phase] at batch
    dsimp only at batch
    rw [batch]
    exact Nat.zero_le _
  | receiving rcvd i out now =>
    rw [phase] at batch
    obtain ⟨few, le, length, -⟩ := batch
    exact length ▸ le.trans few

/-- A pending frame is not with the kernel. -/
theorem Owned.not_kernel (owned : s.Owned u x) {addr : Nat} (member : addr ∈ s.pending) : u.chunk addr ∉ s.kernel := by
  intro taken
  have once := owned.once (u.chunk addr)
  have here : 0 < (s.pending.map u.chunk).count (u.chunk addr) := List.count_pos_iff.mpr (List.mem_map_of_mem member)
  have there : 0 < s.kernel.count (u.chunk addr) := List.count_pos_iff.mpr taken
  rw [places] at once
  split at once <;> omega

theorem sameProgram_kernel {t : XdpReceiver} (step : XdpStep u x s .kernel t) : s.SameProgram t := by
  cases step <;> exact ⟨rfl, rfl, rfl, rfl, rfl⟩

/-- The kernel does not write to an exposed payload. -/
theorem Owned.payload_kept (owned : s.Owned u x) {i : Nat} (exposed : s.Exposed u i) {t : XdpReceiver}
    (step : XdpStep u x s .kernel t) :
    t.bytes (s.packets i).data (s.packets i).len = s.bytes (s.packets i).data (s.packets i).len := by
  cases step with
  | take next => rfl
  | publish has of => rfl
  | @write c mem has elsewhere =>
    obtain ⟨addr, member, start, stop⟩ := exposed
    have free := owned.not_kernel member
    refine List.map_congr_left fun k inside => elsewhere _ fun there => free ?_
    have short := List.mem_range.mp inside
    have here : u.chunk ((s.packets i).data + k) = u.chunk addr := by
      refine Nat.div_eq_of_lt_le (start.trans (Nat.le_add_right ..)) ?_
      exact (Nat.add_lt_add_left short _).trans_le stop
    rwa [← here, there]

/-- In every run of polls against the kernel, every frame is in one place, at most a batch
is pending, a poll that gets no room keeps its frames, and the packets of the last poll stay
in frames that the kernel does not have. -/
theorem frames_owned (u : Umem) (x : Libxdp) (mem : Nat → UInt8) {s : XdpReceiver}
    (reach : Reachable (opened u mem) (XdpStep u x) s) :
    (∀ c, s.places u x c = if c < u.frames then 1 else 0) ∧ s.pending.length ≤ kBatch ∧
    (s.phase = .idle → s.pending ≠ [] → (s.reserve 0).phase = .idle ∧ (s.reserve 0).result = 0 ∧
      (s.reserve 0).pending = s.pending ∧ (s.reserve 0).rx = s.rx ∧ (s.reserve 0).fill = s.fill) ∧
    (s.phase = .idle → ∀ i < s.result, s.Exposed u i ∧ ∀ t, XdpStep u x s .kernel t →
      t.pending = s.pending ∧ t.packets = s.packets ∧ t.phase = .idle ∧ t.result = s.result ∧
      t.bytes (s.packets i).data (s.packets i).len = s.bytes (s.packets i).data (s.packets i).len) := by
  have owned := owned_reachable reach
  refine ⟨owned.once, owned.pending_le, fun phase some => ?_, fun phase i less => ?_⟩
  · have length : s.pending.length ≠ 0 := fun none => some (List.eq_nil_of_length_eq_zero none)
    rw [reserve, if_pos length, if_neg (Ne.symm length)]
    exact ⟨rfl, rfl, rfl, rfl, rfl⟩
  · have batch := owned.batch
    rw [Batch, phase] at batch
    have exposed := batch.2 i less
    refine ⟨exposed, fun t step => ?_⟩
    obtain ⟨-, pending, packets, same, result⟩ := sameProgram_kernel step
    exact ⟨pending, packets, same.trans phase, result, owned.payload_kept exposed step⟩

/-- libxdp's address fields: the offset is in the 16 high bits. -/
def libxdp : Libxdp where
  extractAddr addr := addr % 2 ^ 48
  addOffsetToAddr addr := addr % 2 ^ 48 + addr / 2 ^ 48

def twoFrames : Umem := ⟨2, 2048, by decide⟩

/-- A frame of the feed, received by one poll. -/
theorem frames_owned_sample : ∃ s : XdpReceiver, s.result = 1 ∧ s.Exposed twoFrames 0 := by
  have of : XdpDesc.Of twoFrames libxdp ⟨0, 43⟩ 0 := ⟨by decide, by decide, by decide⟩
  have fresh := @Reachable.start _ _ (opened twoFrames (byteAt feedFrame)) (XdpStep twoFrames libxdp)
  have published := (fresh.next (.take rfl)).next (.publish (show [twoFrames.chunk 0] = [] ++ 0 :: [] from rfl) of)
  have received := ((published.next (.reserve 0 rfl (.inr rfl))).next (.peek 1 5 rfl (by decide) (by decide))).next
    (.receive rfl Nat.one_pos rfl)
  have run := received.next (.release rfl)
  obtain ⟨-, -, -, packets⟩ := frames_owned twoFrames libxdp (byteAt feedFrame) run
  exact ⟨_, rfl, (packets rfl 0 Nat.one_pos).1⟩

end XdpReceiver

end Itch
