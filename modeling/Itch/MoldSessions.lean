import Itch.MoldPackets
import Mathlib.Data.List.Nodup

namespace Itch

/-- The messages a call delivers, as pairs of session and sequence number. -/
def MoldOutcome.log (o : MoldOutcome) : List (List UInt8 × Nat) :=
  o.calls.map fun d => (o.sequencer.session, d.seq)

/-- All messages delivered over a run of packets from the start. -/
def deliveryLog (pkts : List (List UInt8)) : List (List UInt8 × Nat) :=
  (({} : MoldSequencer).feed pkts).flatMap MoldOutcome.log

/-- A parsable header is numbered from 1 and does not run past the 64-bit numbers. -/
def Numbered (pkt : List UInt8) : Prop :=
  ∀ h, parseMoldHeader pkt = some h → 1 ≤ h.sequence ∧ h.sequence + h.count < 2 ^ 64

/-- A packet that makes the sequencer change session is numbered above
everything already delivered for its own session. -/
def StaysForward (s : MoldSequencer) (log : List (List UInt8 × Nat)) (pkt : List UInt8) : Prop :=
  ∀ h, messageHeader pkt = some h → s.next ≠ 0 → h.session ≠ s.session → ∀ q, (h.session, q) ∈ log → q < h.sequence

/-- No packet of the run takes the sequencer back into an old session. -/
def NeverRewinds (pkts : List (List UInt8)) : Prop :=
  ∀ front pkt back, pkts = front ++ pkt :: back →
    StaysForward (({} : MoldSequencer).after front) (deliveryLog front) pkt

theorem deliveryLog_append (pkts : List (List UInt8)) (pkt : List UInt8) :
    deliveryLog (pkts ++ [pkt]) = deliveryLog pkts ++ ((({} : MoldSequencer).after pkts).onPacket pkt).log := by
  simp only [deliveryLog, MoldSequencer.feed_append, List.flatMap_append, List.flatMap_singleton]

theorem NeverRewinds.front {pkts : List (List UInt8)} {pkt : List UInt8} (forward : NeverRewinds (pkts ++ [pkt])) :
    NeverRewinds pkts := by
  intro front p back split
  exact forward front p (back ++ [pkt]) (by simp [split])

theorem MoldSequencer.onPacket_log {pkt : List UInt8} {h : MoldHeader} (parsed : messageHeader pkt = some h)
    (bound : h.sequence + h.count < 2 ^ 64) (s : MoldSequencer) :
    let start := max (s.baseline h).next h.sequence
    let stop := h.sequence + completeBlocks pkt h.count
    (s.onPacket pkt).log = (List.range' start (stop - start)).map (fun q => (h.session, q)) ∧
      (s.onPacket pkt).sequencer = ⟨h.session, max start stop⟩ := by
  obtain ⟨header, message⟩ := messageHeader_eq_some.mp parsed
  simp only [MoldOutcome.log, onPacket_message header message bound, List.map_map, baseline_session]
  exact ⟨List.map_congr_left fun q _ => rfl, trivial⟩

/-- What the sequencer remembers is above everything delivered for its session. -/
structure MoldSequencer.Logged (s : MoldSequencer) (log : List (List UInt8 × Nat)) : Prop where
  nodup : log.Nodup
  below : ∀ q, (s.session, q) ∈ log → q < s.next
  fresh : s.next = 0 → log = []
  bounded : ∀ entry ∈ log, entry.2 + 1 < 2 ^ 64

theorem MoldSequencer.Logged.below_baseline {s : MoldSequencer} {log : List (List UInt8 × Nat)} (logged : s.Logged log)
    {pkt : List UInt8} {h : MoldHeader} (parsed : messageHeader pkt = some h) (forward : StaysForward s log pkt)
    {q : Nat} (member : (h.session, q) ∈ log) : q < (s.baseline h).next := by
  by_cases fresh : s.next = 0
  · simp [logged.fresh fresh] at member
  · by_cases same : h.session = s.session
    · rw [same] at member
      rw [baseline_same fresh same]
      exact logged.below q member
    · rw [baseline_changed same]
      exact forward h parsed fresh same q member

theorem MoldSequencer.Logged.step {s : MoldSequencer} {log : List (List UInt8 × Nat)} (logged : s.Logged log)
    {pkt : List UInt8} (numbered : Numbered pkt) (forward : StaysForward s log pkt) :
    (s.onPacket pkt).sequencer.Logged (log ++ (s.onPacket pkt).log) := by
  cases parsed : messageHeader pkt with
  | none =>
    obtain ⟨same, _, calls, _⟩ := s.onPacket_idle parsed
    have silent : (s.onPacket pkt).log = [] := by simp [MoldOutcome.log, calls]
    rw [same, silent, List.append_nil]
    exact logged
  | some h =>
    obtain ⟨positive, bound⟩ := numbered h (messageHeader_eq_some.mp parsed).1
    obtain ⟨log', after⟩ := s.onPacket_log parsed bound
    have complete := completeBlocks_le pkt h.count
    rw [log', after]
    generalize completeBlocks pkt h.count = c at *
    have old : ∀ q, (h.session, q) ∈ log → q < max (s.baseline h).next h.sequence := fun q member =>
      lt_max_of_lt_left (logged.below_baseline parsed forward member)
    have start : 1 ≤ max (s.baseline h).next h.sequence := positive.trans (le_max_right _ _)
    generalize max (s.baseline h).next h.sequence = start at *
    refine ⟨?_, ?_, ?_, ?_⟩
    · rw [List.nodup_append]
      refine ⟨logged.nodup, List.Nodup.map (fun a b same => (Prod.mk.inj same).2) List.nodup_range', ?_⟩
      rintro entry member _ new rfl
      obtain ⟨q, range, rfl⟩ := List.mem_map.mp new
      have lower := (List.mem_range'_1.mp range).1
      have upper := old q member
      omega
    · intro q member
      rcases List.mem_append.mp member with before | new
      · exact lt_max_of_lt_left (old q before)
      · obtain ⟨p, range, same⟩ := List.mem_map.mp new
        cases same
        have upper := (List.mem_range'_1.mp range).2
        simp only
        omega
    · intro zero
      simp only at zero
      omega
    · intro entry member
      rcases List.mem_append.mp member with before | new
      · exact logged.bounded entry before
      · obtain ⟨q, range, rfl⟩ := List.mem_map.mp new
        obtain ⟨lower, upper⟩ := List.mem_range'_1.mp range
        simp only
        omega

theorem MoldSequencer.logged {pkts : List (List UInt8)} (numbered : ∀ pkt ∈ pkts, Numbered pkt)
    (forward : NeverRewinds pkts) : (({} : MoldSequencer).after pkts).Logged (deliveryLog pkts) := by
  induction pkts using List.reverseRecOn with
  | nil => exact ⟨List.nodup_nil, by simp [deliveryLog, feed], fun _ => rfl, by simp [deliveryLog, feed]⟩
  | append_singleton pkts pkt ih =>
    rw [after_append, deliveryLog_append]
    exact (ih (fun p member => numbered p (List.mem_append_left _ member)) forward.front).step
      (numbered pkt (by simp)) (forward pkts pkt [] rfl)

/-- The condition is exact: once a packet takes the sequencer back to a message
it delivered, that packet or one with that message delivers it again. -/
theorem MoldSequencer.Logged.rewind_repeats {s : MoldSequencer} {log : List (List UInt8 × Nat)}
    (logged : s.Logged log) {pkt : List UInt8} (numbered : Numbered pkt) (back : ¬ StaysForward s log pkt) :
    ∃ next, Numbered next ∧
      ¬ (log ++ (s.onPacket pkt).log ++ ((s.onPacket pkt).sequencer.onPacket next).log).Nodup := by
  unfold StaysForward at back
  push Not at back
  obtain ⟨h, parsed, started, other, q, member, low⟩ := back
  obtain ⟨header, message⟩ := messageHeader_eq_some.mp parsed
  obtain ⟨positive, bound⟩ := numbered h header
  obtain ⟨log', after⟩ := s.onPacket_log parsed bound
  have based := baseline_changed other
  have ten : h.session.length = 10 := by
    have long := parseMoldHeader_header header
    unfold parseMoldHeader at header
    rw [if_neg (by omega)] at header
    cases header
    exact slice_length (by unfold kMoldHeaderLength at long; omega)
  have limit : q + 1 < 2 ^ 64 := logged.bounded _ member
  have framed : ∀ rec ∈ [[0, 0]], IsRecord rec := by simp [IsRecord]; decide
  have again := parseMoldHeader_moldPacket ten (show q < 2 ^ 64 by omega) (show 1 < 2 ^ 16 by decide) [[0, 0]]
  refine ⟨moldPacket h.session q 1 [[0, 0]], ?_, ?_⟩
  · intro h' parsed'
    cases again.symm.trans parsed'
    exact ⟨by simp only; omega, limit⟩
  · rw [after, log', based]
    simp only [max_self]
    by_cases here : q < h.sequence + completeBlocks pkt h.count
    · -- the packet itself holds the old message
      intro nodup
      have inner := (List.nodup_append.mp nodup).1
      have new : (h.session, q) ∈ (List.range' h.sequence (h.sequence + completeBlocks pkt h.count - h.sequence)).map
          (fun q => (h.session, q)) := List.mem_map.mpr ⟨q, List.mem_range'_1.mpr ⟨low, by omega⟩, rfl⟩
      exact (List.nodup_append.mp inner).2.2 _ member _ new rfl
    · -- it ends below the old message, and a packet of that number delivers it
      intro nodup
      have least := le_max_left h.sequence (h.sequence + completeBlocks pkt h.count)
      have below : max h.sequence (h.sequence + completeBlocks pkt h.count) ≤ q := by omega
      generalize max h.sequence (h.sequence + completeBlocks pkt h.count) = expected at *
      have stays : (MoldSequencer.mk h.session expected).baseline ⟨h.session, q, 1⟩ = ⟨h.session, expected⟩ :=
        baseline_same (show expected ≠ 0 by omega) rfl
      have outcome := MoldSequencer.onPacket_moldPacket ten framed (by decide) (show q + 1 < 2 ^ 64 from limit)
        ⟨h.session, expected⟩
      simp only [List.length_singleton, stays] at outcome
      rw [outcome] at nodup
      simp only [MoldOutcome.log, max_eq_right below, Nat.add_sub_cancel_left, List.range'_one,
        List.map_singleton] at nodup
      exact (List.nodup_append.mp nodup).2.2 _ (List.mem_append_left _ member) _ (List.mem_singleton_self _) rfl

/-- In every run whose packets never take the sequencer back into an old
session, each pair of session and number is delivered at most once; after such
a run, every packet that does take it back lets some message be delivered twice. -/
theorem MoldSequencer.delivered_at_most_once {pkts : List (List UInt8)} (numbered : ∀ pkt ∈ pkts, Numbered pkt)
    (forward : NeverRewinds pkts) :
    (deliveryLog pkts).Nodup ∧
      ∀ pkt, Numbered pkt → ¬ StaysForward (({} : MoldSequencer).after pkts) (deliveryLog pkts) pkt →
        ∃ next, Numbered next ∧ ¬ (deliveryLog (pkts ++ [pkt] ++ [next])).Nodup := by
  have logged := logged numbered forward
  refine ⟨logged.nodup, ?_⟩
  intro pkt own back
  obtain ⟨next, fits, repeated⟩ := logged.rewind_repeats own back
  refine ⟨next, fits, ?_⟩
  rwa [deliveryLog_append, deliveryLog_append, after_append]

theorem numbered_moldPacket {session : List UInt8} (ten : session.length = 10) {seq count : Nat} (positive : 1 ≤ seq)
    (bound : seq + count < 2 ^ 64) (small : count < 2 ^ 16) (blocks : List (List UInt8)) :
    Numbered (moldPacket session seq count blocks) := by
  intro h parsed
  cases (parseMoldHeader_moldPacket ten (by omega) small blocks).symm.trans parsed
  exact ⟨positive, bound⟩

theorem MoldSequencer.delivered_at_most_once_sample :
    (deliveryLog [moldPacket (List.replicate 10 65) 1 1 [[0, 1, 7]], moldPacket (List.replicate 10 66) 1 1 [[0, 1, 7]]]).Nodup := by
  refine (delivered_at_most_once ?_ ?_).1
  · simp only [List.mem_cons, List.not_mem_nil, or_false]
    rintro pkt (rfl | rfl) <;> exact numbered_moldPacket rfl (by decide) (by decide) (by decide) _
  · intro front pkt back split h parsed started other q member
    rcases front with _ | ⟨first, _ | ⟨second, front⟩⟩
    · simp [deliveryLog, feed] at member
    · simp only [List.cons_append, List.nil_append, List.cons.injEq] at split
      obtain ⟨rfl, rfl, rfl⟩ := split
      have log : deliveryLog [moldPacket (List.replicate 10 65) 1 1 [[0, 1, 7]]] = [(List.replicate 10 65, 1)] := by
        decide
      have header : messageHeader (moldPacket (List.replicate 10 66) 1 1 [[0, 1, 7]]) =
          some ⟨List.replicate 10 66, 1, 1⟩ := by decide
      cases header.symm.trans parsed
      simp only [log, List.mem_singleton, Prod.mk.injEq] at member
      exact absurd member.1 (by decide)
    · simp at split

/-- A late copy of an old session's packet, after a packet of a new session, is delivered again. -/
theorem MoldSequencer.late_copy_delivered_twice :
    ¬ ∀ pkts : List (List UInt8), (∀ pkt ∈ pkts, Numbered pkt) → (deliveryLog pkts).Nodup := by
  intro always
  have twice := always [moldPacket (List.replicate 10 65) 1 1 [[0, 1, 7]], moldPacket (List.replicate 10 66) 1 1 [[0, 1, 7]],
    moldPacket (List.replicate 10 65) 1 1 [[0, 1, 7]]] (by
      simp only [List.mem_cons, List.not_mem_nil, or_false]
      rintro pkt (rfl | rfl | rfl) <;> exact numbered_moldPacket rfl (by decide) (by decide) (by decide) _)
  revert twice
  decide

end Itch
