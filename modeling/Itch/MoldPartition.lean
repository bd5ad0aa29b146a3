import Itch.MoldBlocks
import Mathlib.Data.List.Induction

namespace Itch

/-- The header of a packet that carries or announces messages. -/
def messageHeader (pkt : List UInt8) : Option MoldHeader :=
  (parseMoldHeader pkt).filter fun h => h.count ≠ kMoldEndOfSession

/-- The number of the first packet that sets the expected sequence number, 0 while there is none. -/
def baselineOf (pkts : List (List UInt8)) : Nat :=
  ((pkts.filterMap messageHeader).head?.map MoldHeader.sequence).getD 0

/-- A parsable header is of the given session, numbered from 1, and does not
run past the 64-bit numbers. -/
def SingleSession (session pkt : List UInt8) : Prop :=
  ∀ h, parseMoldHeader pkt = some h → h.session = session ∧ 1 ≤ h.sequence ∧ h.sequence + h.count < 2 ^ 64

def MoldSequencer.after (s : MoldSequencer) (pkts : List (List UInt8)) : MoldSequencer :=
  pkts.foldl (fun s pkt => (s.onPacket pkt).sequencer) s

/-- The outcomes of a run of packets, in order. -/
def MoldSequencer.feed (s : MoldSequencer) : List (List UInt8) → List MoldOutcome
  | [] => []
  | pkt :: pkts => s.onPacket pkt :: (s.onPacket pkt).sequencer.feed pkts

/-- The numbers a call accounts for: first the reported gap, then the messages delivered. -/
def MoldOutcome.span (o : MoldOutcome) : List Nat :=
  List.range' o.result.gapFirst o.result.gapCount ++ o.calls.map Delivery.seq

theorem MoldSequencer.after_append (s : MoldSequencer) (pkts : List (List UInt8)) (pkt : List UInt8) :
    s.after (pkts ++ [pkt]) = ((s.after pkts).onPacket pkt).sequencer := by
  simp only [after, List.foldl_append, List.foldl_cons, List.foldl_nil]

theorem MoldSequencer.feed_append_list (s : MoldSequencer) (front back : List (List UInt8)) :
    s.feed (front ++ back) = s.feed front ++ (s.after front).feed back := by
  induction front generalizing s with
  | nil => rfl
  | cons p front ih => simp only [List.cons_append, feed, ih]; rfl

theorem MoldSequencer.feed_append (s : MoldSequencer) (pkts : List (List UInt8)) (pkt : List UInt8) :
    s.feed (pkts ++ [pkt]) = s.feed pkts ++ [(s.after pkts).onPacket pkt] :=
  s.feed_append_list pkts [pkt]

theorem messageHeader_eq_some {pkt : List UInt8} {h : MoldHeader} :
    messageHeader pkt = some h ↔ parseMoldHeader pkt = some h ∧ h.count ≠ kMoldEndOfSession := by
  simp [messageHeader, Option.filter_eq_some_iff]

/-- A packet without messages leaves the sequencer as it was and accounts for nothing. -/
theorem MoldSequencer.onPacket_idle {pkt : List UInt8} (idle : messageHeader pkt = none) (s : MoldSequencer) :
    (s.onPacket pkt).sequencer = s ∧ (s.onPacket pkt).span = [] ∧ (s.onPacket pkt).calls = [] ∧
      (s.onPacket pkt).result.gapCount = 0 ∧ (s.onPacket pkt).result.delivered = 0 := by
  cases parsed : parseMoldHeader pkt with
  | none => simp [onPacket_short parsed, MoldOutcome.span]
  | some h =>
    have last : h.count = kMoldEndOfSession := by
      by_contra message
      rw [messageHeader_eq_some.mpr ⟨parsed, message⟩] at idle
      cases idle
    simp [onPacket_end parsed last, MoldOutcome.span]

theorem map_seq_blockDelivery (pkt : List UInt8) (sequence : Nat) (numbers : List Nat) :
    (numbers.map (blockDelivery pkt sequence)).map Delivery.seq = numbers := by
  rw [List.map_map]
  exact List.map_id' numbers

/-- The gap and the delivered messages fill the range the counter moves over. -/
theorem MoldSequencer.onPacket_span {pkt : List UInt8} {h : MoldHeader} (parsed : messageHeader pkt = some h)
    (bound : h.sequence + h.count < 2 ^ 64) (s : MoldSequencer) :
    (s.onPacket pkt).span =
      List.range' (s.baseline h).next ((s.onPacket pkt).sequencer.next - (s.baseline h).next) := by
  obtain ⟨parsed, message⟩ := messageHeader_eq_some.mp parsed
  rw [onPacket_message parsed message bound, MoldOutcome.span]
  simp only [map_seq_blockDelivery]
  generalize (s.baseline h).next = next
  generalize h.sequence + completeBlocks pkt h.count = stop
  by_cases gap : next < h.sequence
  · have from_gap : max next h.sequence = next + (h.sequence - next) := by omega
    simp only [if_pos gap]
    rw [from_gap, List.range'_append_1]
    congr 1
    omega
  · have none : h.sequence - next = 0 := by omega
    have start : max next h.sequence = next := by omega
    simp only [none, start, List.range'_zero, List.nil_append]
    congr 1
    omega

theorem MoldSequencer.onPacket_growth {pkt : List UInt8} {h : MoldHeader} (parsed : messageHeader pkt = some h)
    (bound : h.sequence + h.count < 2 ^ 64) (s : MoldSequencer) :
    (s.onPacket pkt).sequencer.next =
      (s.baseline h).next + (s.onPacket pkt).result.gapCount + (s.onPacket pkt).result.delivered := by
  obtain ⟨parsed, message⟩ := messageHeader_eq_some.mp parsed
  rw [onPacket_message parsed message bound]
  simp only
  omega

/-- What holds between calls: the session is known once a number is expected,
and the calls so far account for the numbers from the baseline to the expected one. -/
structure MoldSequencer.Accounted (session : List UInt8) (pkts : List (List UInt8)) (s : MoldSequencer)
    (outcomes : List MoldOutcome) : Prop where
  session : s.next ≠ 0 → s.session = session
  started : s.next = 0 ↔ pkts.filterMap messageHeader = []
  spans : outcomes.flatMap MoldOutcome.span = List.range' (baselineOf pkts) (s.next - baselineOf pkts)
  ordered : baselineOf pkts ≤ s.next

theorem baselineOf_append (pkts : List (List UInt8)) (pkt : List UInt8) :
    baselineOf (pkts ++ [pkt]) =
      if pkts.filterMap messageHeader = [] then ((messageHeader pkt).map MoldHeader.sequence).getD 0
      else baselineOf pkts := by
  unfold baselineOf
  rw [List.filterMap_append, List.head?_append]
  cases seen : pkts.filterMap messageHeader with
  | nil => cases found : messageHeader pkt <;> simp [found]
  | cons h hs => simp

/-- The number a message packet is measured from is the baseline or the expected one. -/
theorem MoldSequencer.Accounted.baseline_next {session : List UInt8} {pkts : List (List UInt8)} {s : MoldSequencer}
    {outcomes : List MoldOutcome} (acc : s.Accounted session pkts outcomes) {pkt : List UInt8} {h : MoldHeader}
    (parsed : messageHeader pkt = some h) (own : h.session = session) :
    (s.baseline h).next = if s.next = 0 then baselineOf (pkts ++ [pkt]) else s.next := by
  by_cases fresh : s.next = 0
  · rw [baselineOf_append, if_pos (acc.started.mp fresh), parsed, baseline_fresh fresh, if_pos fresh]
    rfl
  · rw [baseline_same fresh (own.trans (acc.session fresh).symm), if_neg fresh]

theorem MoldSequencer.Accounted.step {session : List UInt8} {pkts : List (List UInt8)} {s : MoldSequencer}
    {outcomes : List MoldOutcome} (acc : s.Accounted session pkts outcomes) {pkt : List UInt8}
    (input : SingleSession session pkt) :
    (s.onPacket pkt).sequencer.Accounted session (pkts ++ [pkt]) (outcomes ++ [s.onPacket pkt]) := by
  cases parsed : messageHeader pkt with
  | none =>
    obtain ⟨same, span, _⟩ := s.onPacket_idle parsed
    have kept : (pkts ++ [pkt]).filterMap messageHeader = pkts.filterMap messageHeader := by simp [parsed]
    have base : baselineOf (pkts ++ [pkt]) = baselineOf pkts := by simp only [baselineOf, kept]
    rw [same]
    exact ⟨acc.session, by rw [kept]; exact acc.started, by simp [span, base, acc.spans], by rw [base]; exact acc.ordered⟩
  | some h =>
    obtain ⟨header, message⟩ := messageHeader_eq_some.mp parsed
    obtain ⟨own, positive, bound⟩ := input h header
    have span := s.onPacket_span parsed bound
    have growth := s.onPacket_growth parsed bound
    have base := acc.baseline_next parsed own
    have next := congrArg (fun o => o.sequencer) (s.onPacket_message header message bound)
    simp only at next
    have grown : h.sequence ≤ (s.onPacket pkt).sequencer.next := by rw [next]; simp
    refine ⟨?_, ?_, ?_, ?_⟩
    · intro _
      rw [next, ← own]
      exact baseline_session s h
    · simp [parsed]; omega
    · rw [List.flatMap_append, acc.spans, List.flatMap_singleton, span]
      by_cases fresh : s.next = 0
      · have empty : s.next - baselineOf pkts = 0 := by omega
        rw [base, if_pos fresh, empty, List.range'_zero, List.nil_append]
      · have old : baselineOf (pkts ++ [pkt]) = baselineOf pkts := by
          rw [baselineOf_append, if_neg (fun none => fresh (acc.started.mpr none))]
        have ordered := acc.ordered
        rw [base, if_neg fresh] at growth ⊢
        rw [old, ← Nat.add_sub_of_le ordered, Nat.add_sub_cancel_left, List.range'_append_1]
        congr 1
        omega
    · rw [growth, base]
      split
      · omega
      · rename_i fresh
        rw [baselineOf_append, if_neg (fun none => fresh (acc.started.mpr none))]
        have ordered := acc.ordered
        omega

theorem MoldSequencer.accounted {session : List UInt8} (pkts : List (List UInt8))
    (input : ∀ pkt ∈ pkts, SingleSession session pkt) :
    (({} : MoldSequencer).after pkts).Accounted session pkts (({} : MoldSequencer).feed pkts) := by
  induction pkts using List.reverseRecOn with
  | nil => exact ⟨fun h => absurd rfl h, by simp [after], by simp [feed, after], by simp [baselineOf, after]⟩
  | append_singleton pkts pkt ih =>
    rw [after_append, feed_append]
    exact (ih fun p member => input p (List.mem_append_left _ member)).step (input pkt (by simp))

theorem filter_range'_ge (next start count : Nat) :
    (List.range' start count).filter (fun q => decide (next ≤ q)) =
      List.range' (max next start) (start + count - max next start) := by
  induction count generalizing start with
  | zero => simp
  | succ count ih =>
    rw [List.range'_succ, List.filter_cons, ih]
    by_cases seen : next ≤ start
    · have first : max next start = start := by omega
      have rest : max next (start + 1) = start + 1 := by omega
      have length : start + (count + 1) - start = (start + 1 + count - (start + 1)) + 1 := by omega
      simp only [seen, decide_true, if_true, first, rest, length, List.range'_succ]
    · have same : max next (start + 1) = max next start := by omega
      have length : start + 1 + count - max next start = start + (count + 1) - max next start := by omega
      simp only [seen, decide_false, Bool.false_eq_true, if_false, same, length]

/-- The packet ends inside block `k` of those its header announces. -/
def CutInside (pkt : List UInt8) (h : MoldHeader) (k : Nat) : Prop :=
  k < h.count ∧ blockOffset pkt k ≤ pkt.length ∧ pkt.length < blockOffset pkt (k + 1)

theorem MoldSequencer.onPacket_calls_inside {pkt : List UInt8} {h : MoldHeader} (parsed : messageHeader pkt = some h)
    (bound : h.sequence + h.count < 2 ^ 64) (s : MoldSequencer) {d : Delivery} (member : d ∈ (s.onPacket pkt).calls) :
    h.sequence ≤ d.seq ∧ d = blockDelivery pkt h.sequence d.seq ∧ d.off + d.len ≤ pkt.length := by
  obtain ⟨header, message⟩ := messageHeader_eq_some.mp parsed
  rw [onPacket_message header message bound] at member
  simp only [List.mem_map, List.mem_range'_1] at member
  obtain ⟨q, ⟨lower, upper⟩, rfl⟩ := member
  have inside := completeBlocks_inside (parseMoldHeader_header header) h.count
  have block := (blockOffset_strictMono pkt).monotone
    (show q - h.sequence + 1 ≤ completeBlocks pkt h.count by omega)
  rw [blockOffset] at block
  refine ⟨?_, rfl, ?_⟩ <;> simp only [blockDelivery] <;> omega

theorem MoldSequencer.onPacket_cut {pkt : List UInt8} {h : MoldHeader} {k : Nat} (parsed : messageHeader pkt = some h)
    (bound : h.sequence + h.count < 2 ^ 64) (cut : CutInside pkt h k) (s : MoldSequencer) :
    (s.onPacket pkt).result.malformed = true ∧
      (s.onPacket pkt).calls =
        ((List.range' h.sequence k).filter fun q => decide ((s.baseline h).next ≤ q)).map
          (blockDelivery pkt h.sequence) := by
  obtain ⟨header, message⟩ := messageHeader_eq_some.mp parsed
  obtain ⟨within, inside, beyond⟩ := cut
  have complete := completeBlocks_eq within.le inside (Or.inr beyond)
  rw [onPacket_message header message bound, filter_range'_ge, complete]
  exact ⟨decide_eq_true within, rfl⟩

theorem MoldSequencer.onPacket_delivered {pkt : List UInt8}
    (bound : ∀ h, parseMoldHeader pkt = some h → h.sequence + h.count < 2 ^ 64) (s : MoldSequencer) :
    (s.onPacket pkt).result.delivered = (s.onPacket pkt).calls.length := by
  cases parsed : messageHeader pkt with
  | none =>
    obtain ⟨_, _, calls, _, delivered⟩ := s.onPacket_idle parsed
    rw [calls, delivered, List.length_nil]
  | some h =>
    obtain ⟨header, message⟩ := messageHeader_eq_some.mp parsed
    rw [onPacket_message header message (bound h header)]
    simp only [List.length_map, List.length_range']

theorem MoldSequencer.Accounted.growth {session : List UInt8} {pkts : List (List UInt8)} {s : MoldSequencer}
    {outcomes : List MoldOutcome} (acc : s.Accounted session pkts outcomes) {pkt : List UInt8}
    (input : SingleSession session pkt) :
    (s.onPacket pkt).sequencer.next = (if s.next = 0 then baselineOf (pkts ++ [pkt]) else s.next) +
      (s.onPacket pkt).result.gapCount + (s.onPacket pkt).result.delivered := by
  cases parsed : messageHeader pkt with
  | none =>
    obtain ⟨same, _, _, gap, delivered⟩ := s.onPacket_idle parsed
    rw [same, gap, delivered]
    split
    · rename_i fresh
      rw [baselineOf_append, if_pos (acc.started.mp fresh), parsed, fresh]
      rfl
    · rfl
  | some h =>
    obtain ⟨own, _, bound⟩ := input h (messageHeader_eq_some.mp parsed).1
    rw [← acc.baseline_next parsed own]
    exact s.onPacket_growth parsed bound

/-- The numbers from the baseline to the expected one are, in increasing order
and each once, those delivered and those of the reported gaps. A call moves the
expected number by what it reports and delivers, the call that sets the
baseline starting from it; a message is its numbered block of the packet, and a
packet that is cut delivers its new blocks before the cut. -/
theorem MoldSequencer.sequence_partition {session : List UInt8} (pkts : List (List UInt8))
    (input : ∀ pkt ∈ pkts, SingleSession session pkt) :
    let s := ({} : MoldSequencer).after pkts
    (({} : MoldSequencer).feed pkts).flatMap MoldOutcome.span =
        List.range' (baselineOf pkts) (s.next - baselineOf pkts) ∧
      baselineOf pkts ≤ s.next ∧
      ∀ pkt, SingleSession session pkt →
        let o := s.onPacket pkt
        o.sequencer.next = (if s.next = 0 then baselineOf (pkts ++ [pkt]) else s.next) +
            o.result.gapCount + o.result.delivered ∧
          o.result.delivered = o.calls.length ∧
          (∀ d ∈ o.calls, ∃ h, parseMoldHeader pkt = some h ∧ h.sequence ≤ d.seq ∧
            d = blockDelivery pkt h.sequence d.seq ∧ d.off + d.len ≤ pkt.length) ∧
          ∀ h k, parseMoldHeader pkt = some h → h.count ≠ kMoldEndOfSession → CutInside pkt h k →
            o.result.malformed = true ∧
              o.calls = ((List.range' h.sequence k).filter fun q => decide (s.next ≤ q)).map
                (blockDelivery pkt h.sequence) := by
  have acc := accounted pkts input
  refine ⟨acc.spans, acc.ordered, ?_⟩
  intro pkt single
  generalize ({} : MoldSequencer).after pkts = s at acc
  refine ⟨acc.growth single, s.onPacket_delivered fun h parsed => (single h parsed).2.2, ?_, ?_⟩
  · intro d member
    cases parsed : messageHeader pkt with
    | none => simp [(s.onPacket_idle parsed).2.2.1] at member
    | some h =>
      have header := (messageHeader_eq_some.mp parsed).1
      exact ⟨h, header, s.onPacket_calls_inside parsed (single h header).2.2 member⟩
  · intro h k header message cut
    have parsed := messageHeader_eq_some.mpr ⟨header, message⟩
    obtain ⟨own, _, bound⟩ := single h header
    obtain ⟨malformed, calls⟩ := s.onPacket_cut parsed bound cut
    refine ⟨malformed, ?_⟩
    rw [calls, acc.baseline_next parsed own]
    congr 1
    apply List.filter_congr
    intro q member
    have lower := (List.mem_range'_1.mp member).1
    by_cases fresh : s.next = 0
    · rw [baselineOf_append, if_pos (acc.started.mp fresh), parsed, if_pos fresh, fresh]
      simpa using lower
    · rw [if_neg fresh]

/-- A packet of session zero numbered 5, with one message. -/
theorem singleSession_sample : SingleSession (List.replicate 10 0)
    (List.replicate 10 0 ++ BigEndian.encode 8 5 ++ [0, 1, 0, 1, 65]) := by
  intro h parsed
  have header : h = { session := List.replicate 10 0, sequence := 5, count := 1 } := by
    apply Option.some.inj
    rw [← parsed]
    decide
  subst header
  decide

/-- A packet of session zero with blocks of one byte, of which the last may be cut. -/
def zeroPacket (sequence count : Nat) (blocks : List UInt8) : List UInt8 :=
  List.replicate 10 0 ++ BigEndian.encode 8 sequence ++ BigEndian.encode 2 count ++ blocks

theorem singleSession_zero {pkt : List UInt8} {sequence count : Nat}
    (parsed : parseMoldHeader pkt = some ⟨List.replicate 10 0, sequence, count⟩) (first : 1 ≤ sequence)
    (bound : sequence + count < 2 ^ 64) : SingleSession (List.replicate 10 0) pkt := by
  intro h parsed'
  obtain rfl := Option.some.inj (parsed.symm.trans parsed')
  exact ⟨rfl, first, bound⟩

/-- A packet, a copy of it, one after a gap of two, and one that repeats a message and is cut
in its third block. -/
theorem MoldSequencer.sequence_partition_sample :
    let pkts := [zeroPacket 5 1 [0, 1, 65], zeroPacket 5 1 [0, 1, 65], zeroPacket 8 2 [0, 1, 66, 0, 1, 67]]
    let cut := zeroPacket 9 3 [0, 1, 67, 0, 1, 68, 0, 9, 69]
    let s := ({} : MoldSequencer).after pkts
    let o := s.onPacket cut
    (({} : MoldSequencer).feed pkts).flatMap MoldOutcome.span = List.range' 5 5 ∧
      o.sequencer.next = s.next + o.result.gapCount + o.result.delivered ∧ o.result.delivered = o.calls.length ∧
      o.result.malformed = true ∧ o.calls = [blockDelivery cut 9 10] := by
  intro pkts cut s o
  have once : SingleSession (List.replicate 10 0) (zeroPacket 5 1 [0, 1, 65]) :=
    @singleSession_zero _ 5 1 (by decide) (by decide) (by decide)
  have later : SingleSession (List.replicate 10 0) (zeroPacket 8 2 [0, 1, 66, 0, 1, 67]) :=
    @singleSession_zero _ 8 2 (by decide) (by decide) (by decide)
  have last : SingleSession (List.replicate 10 0) cut :=
    @singleSession_zero _ 9 3 (by decide) (by decide) (by decide)
  have input : ∀ pkt ∈ pkts, SingleSession (List.replicate 10 0) pkt := by
    simp only [pkts, List.forall_mem_cons]
    exact ⟨once, once, later, nofun⟩
  obtain ⟨spans, -, each⟩ := sequence_partition pkts input
  obtain ⟨growth, delivered, -, stops⟩ := each cut last
  obtain ⟨malformed, calls⟩ := stops ⟨List.replicate 10 0, 9, 3⟩ 2 (by decide) (by decide)
    ⟨by decide, by decide, by decide⟩
  exact ⟨spans, growth, delivered, malformed, calls⟩

/-- The call that sets the baseline moves the expected number from 0 past the
packet's own number, by more than it reports and delivers. -/
theorem MoldSequencer.growth_fails_at_baseline :
    ¬ ∀ (session : List UInt8) (pkts : List (List UInt8)) (pkt : List UInt8),
      (∀ p ∈ pkts, SingleSession session p) → SingleSession session pkt →
      let s := ({} : MoldSequencer).after pkts
      (s.onPacket pkt).sequencer.next =
        s.next + (s.onPacket pkt).result.gapCount + (s.onPacket pkt).result.delivered := by
  intro always
  have first := always _ [] _ (by simp) singleSession_sample
  revert first
  decide

end Itch
