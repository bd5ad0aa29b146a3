import Itch.MoldUdp64
import Mathlib.Data.Nat.Find

namespace Itch

/-- Where block `k` of a packet starts, following the length fields. -/
def blockOffset (pkt : List UInt8) : Nat → Nat
  | 0 => kMoldHeaderLength
  | k + 1 => blockOffset pkt k + 2 + (loadBe16 pkt (blockOffset pkt k)).toNat

/-- The number of leading blocks, at most `count`, that end inside the packet. -/
def completeBlocks (pkt : List UInt8) (count : Nat) : Nat :=
  Nat.findGreatest (fun c => blockOffset pkt c ≤ pkt.length) count

theorem blockOffset_strictMono (pkt : List UInt8) : StrictMono (blockOffset pkt) :=
  strictMono_nat_of_lt_succ fun k => by rw [blockOffset]; omega

theorem completeBlocks_le (pkt : List UInt8) (count : Nat) : completeBlocks pkt count ≤ count :=
  Nat.findGreatest_le count

theorem completeBlocks_inside {pkt : List UInt8} (header : kMoldHeaderLength ≤ pkt.length) (count : Nat) :
    blockOffset pkt (completeBlocks pkt count) ≤ pkt.length :=
  Nat.findGreatest_spec (P := fun c => blockOffset pkt c ≤ pkt.length) (Nat.zero_le count) header

theorem completeBlocks_cut {pkt : List UInt8} {count : Nat} (short : completeBlocks pkt count < count) :
    pkt.length < blockOffset pkt (completeBlocks pkt count + 1) := by
  have next := Nat.findGreatest_is_greatest (P := fun c => blockOffset pkt c ≤ pkt.length)
    (Nat.lt_succ_self (completeBlocks pkt count)) short
  exact Nat.lt_of_not_le next

/-- Blocks `0 .. k` being inside and block `k` not fixes the count. -/
theorem completeBlocks_eq {pkt : List UInt8} {count k : Nat} (within : k ≤ count)
    (inside : blockOffset pkt k ≤ pkt.length)
    (cut : k = count ∨ pkt.length < blockOffset pkt (k + 1)) : completeBlocks pkt count = k := by
  refine (Nat.findGreatest_eq_iff).mpr ⟨within, fun _ => inside, ?_⟩
  intro c after bounded
  rcases cut with full | cut
  · omega
  · have later := (blockOffset_strictMono pkt).monotone (Nat.succ_le_of_lt after)
    exact Nat.not_le.mpr (cut.trans_le later)

/-- The callback's arguments for the message numbered `q`. -/
def blockDelivery (pkt : List UInt8) (sequence q : Nat) : Delivery :=
  let off := blockOffset pkt (q - sequence)
  { off := off + 2, len := (loadBe16 pkt off).toNat, seq := q }

theorem blockLoop_cut {pkt : List UInt8} {i : Nat} (cut : pkt.length < blockOffset pkt (i + 1))
    (sequence remaining : Nat) (s : MoldSequencer) (r : MoldResult) :
    blockLoop pkt sequence (remaining + 1) i (blockOffset pkt i) s r = ⟨s, { r with malformed := true }, []⟩ := by
  rw [blockOffset] at cut
  simp only [blockLoop, cut, if_true, ite_self]

theorem blockLoop_inside {pkt : List UInt8} {i : Nat} (inside : blockOffset pkt (i + 1) ≤ pkt.length)
    {sequence : Nat} (bound : sequence + i < 2 ^ 64) (remaining : Nat) (s : MoldSequencer) (r : MoldResult) :
    blockLoop pkt sequence (remaining + 1) i (blockOffset pkt i) s r =
      if sequence + i = s.next then
        let rest := blockLoop pkt sequence remaining (i + 1) (blockOffset pkt (i + 1))
          { s with next := (s.next + 1) % 2 ^ 64 } { r with delivered := r.delivered + 1 }
        { rest with calls := ⟨blockOffset pkt i + 2, (loadBe16 pkt (blockOffset pkt i)).toNat, sequence + i⟩ ::
            rest.calls }
      else blockLoop pkt sequence remaining (i + 1) (blockOffset pkt (i + 1)) s r := by
  rw [blockOffset] at inside ⊢
  have field : ¬ pkt.length < blockOffset pkt i + 2 := by omega
  have body : ¬ pkt.length < blockOffset pkt i + 2 + (loadBe16 pkt (blockOffset pkt i)).toNat := by omega
  rw [blockLoop, if_neg field]
  simp only [if_neg body, Nat.mod_eq_of_lt bound]

/-- The loop delivers exactly the numbers from the expected one up to the
first block that is not complete, and leaves the counter there. -/
theorem blockLoop_eq {pkt : List UInt8} {sequence remaining i c : Nat} {s : MoldSequencer} {r : MoldResult}
    (clean : r.malformed = false) (expected : sequence + i ≤ s.next) (bound : sequence + i + remaining < 2 ^ 64)
    (lower : i ≤ c) (upper : c ≤ i + remaining) (inside : blockOffset pkt c ≤ pkt.length)
    (cut : c = i + remaining ∨ pkt.length < blockOffset pkt (c + 1)) :
    blockLoop pkt sequence remaining i (blockOffset pkt i) s r =
      { sequencer := { s with next := max s.next (sequence + c) },
        result := { r with delivered := r.delivered + (sequence + c - s.next), malformed := decide (c < i + remaining) },
        calls := (List.range' s.next (sequence + c - s.next)).map (blockDelivery pkt sequence) } := by
  induction remaining generalizing i s r with
  | zero =>
    have done : c = i := by omega
    subst done
    simp [blockLoop, expected, ← clean]
  | succ remaining ih =>
    by_cases here : c = i
    · -- block `i` is the one that is cut
      subst here
      have short : pkt.length < blockOffset pkt (c + 1) := cut.resolve_left (by omega)
      simp [blockLoop_cut short, expected]
    · have fits := ((blockOffset_strictMono pkt).monotone (show i + 1 ≤ c by omega)).trans inside
      have total : i + 1 + remaining = i + (remaining + 1) := by omega
      rw [blockLoop_inside fits (by omega)]
      by_cases fresh : sequence + i = s.next
      · have step : (s.next + 1) % 2 ^ 64 = s.next + 1 := Nat.mod_eq_of_lt (by omega)
        have count : sequence + c - s.next = sequence + c - (s.next + 1) + 1 := by omega
        have last : max (s.next + 1) (sequence + c) = max s.next (sequence + c) := by omega
        have index : s.next - sequence = i := by omega
        simp only [if_pos fresh, step]
        rw [ih (by simpa using clean) (by simp only; omega) (by omega) (by omega) (by omega) (by omega), total]
        simp only [last, count, List.range'_succ, List.map_cons, blockDelivery, index, fresh, add_assoc,
          Nat.add_comm 1]
      · rw [if_neg fresh, ih clean (by omega) (by omega) (by omega) (by omega) (by omega), total]

theorem MoldSequencer.baseline_fresh {s : MoldSequencer} (fresh : s.next = 0) (h : MoldHeader) :
    s.baseline h = ⟨h.session, h.sequence⟩ := by
  rw [baseline, if_pos (Or.inl fresh)]

theorem MoldSequencer.baseline_changed {s : MoldSequencer} {h : MoldHeader} (changed : h.session ≠ s.session) :
    s.baseline h = ⟨h.session, h.sequence⟩ := by
  rw [baseline, if_pos (Or.inr changed)]

theorem MoldSequencer.baseline_same {s : MoldSequencer} {h : MoldHeader} (started : s.next ≠ 0)
    (same : h.session = s.session) : s.baseline h = s := by
  rw [baseline, if_neg (not_or.mpr ⟨started, not_not.mpr same⟩)]

theorem MoldSequencer.baseline_session (s : MoldSequencer) (h : MoldHeader) : (s.baseline h).session = h.session := by
  by_cases started : s.next = 0
  · rw [baseline_fresh started]
  · by_cases same : h.session = s.session
    · rw [baseline_same started same, same]
    · rw [baseline_changed same]

theorem parseMoldHeader_header {pkt : List UInt8} {h : MoldHeader} (parsed : parseMoldHeader pkt = some h) :
    kMoldHeaderLength ≤ pkt.length := by
  unfold parseMoldHeader at parsed
  split at parsed
  · cases parsed
  · omega

theorem MoldSequencer.onPacket_short {pkt : List UInt8} (short : parseMoldHeader pkt = none) (s : MoldSequencer) :
    s.onPacket pkt = ⟨s, { malformed := true }, []⟩ := by
  rw [onPacket, short]

theorem MoldSequencer.onPacket_end {pkt : List UInt8} {h : MoldHeader} (parsed : parseMoldHeader pkt = some h)
    (last : h.count = kMoldEndOfSession) (s : MoldSequencer) :
    s.onPacket pkt = ⟨s, { endOfSession := true }, []⟩ := by
  rw [onPacket, parsed]
  simp only [last, if_true]

/-- Everything a data packet or a heartbeat does. The packet covers the numbers
from its own up to its first incomplete block; those from the expected one on
are delivered. -/
theorem MoldSequencer.onPacket_message {pkt : List UInt8} {h : MoldHeader} (parsed : parseMoldHeader pkt = some h)
    (message : h.count ≠ kMoldEndOfSession) (bound : h.sequence + h.count < 2 ^ 64) (s : MoldSequencer) :
    s.onPacket pkt =
      let b := s.baseline h
      let start := max b.next h.sequence
      let stop := h.sequence + completeBlocks pkt h.count
      { sequencer := { b with next := max start stop },
        result := { delivered := stop - start,
                    gapFirst := if b.next < h.sequence then b.next else 0,
                    gapCount := h.sequence - b.next,
                    malformed := decide (completeBlocks pkt h.count < h.count),
                    sessionChanged := decide (s.next ≠ 0 ∧ h.session ≠ s.session) },
        calls := (List.range' start (stop - start)).map (blockDelivery pkt h.sequence) } := by
  have inside := completeBlocks_inside (parseMoldHeader_header parsed) h.count
  have upper := completeBlocks_le pkt h.count
  have cut := @completeBlocks_cut pkt h.count
  rw [onPacket, parsed]
  simp only [if_neg message]
  generalize completeBlocks pkt h.count = c at *
  have skipped : (s.baseline h).skipGap h { sessionChanged := decide (s.next ≠ 0 ∧ h.session ≠ s.session) } =
      ({ s.baseline h with next := max (s.baseline h).next h.sequence },
        { gapFirst := if (s.baseline h).next < h.sequence then (s.baseline h).next else 0,
          gapCount := h.sequence - (s.baseline h).next,
          sessionChanged := decide (s.next ≠ 0 ∧ h.session ≠ s.session) }) := by
    unfold skipGap
    by_cases gap : (s.baseline h).next < h.sequence
    · simp [gap, gap.le]
    · have none : h.sequence - (s.baseline h).next = 0 := by omega
      simp [gap, none, Nat.le_of_not_lt gap]
  rw [skipped]
  by_cases heartbeat : h.count = kMoldHeartbeat
  · have empty : c = 0 := by rw [heartbeat] at upper; exact Nat.le_zero.mp upper
    simp [heartbeat, empty, kMoldHeartbeat]
  · have blocks := @blockLoop_eq pkt h.sequence h.count 0 c
      { s.baseline h with next := max (s.baseline h).next h.sequence }
      { gapFirst := if (s.baseline h).next < h.sequence then (s.baseline h).next else 0,
        gapCount := h.sequence - (s.baseline h).next,
        sessionChanged := decide (s.next ≠ 0 ∧ h.session ≠ s.session) }
      rfl (by simp) (by omega) (by omega) (by omega) inside (by omega)
    rw [blockOffset] at blocks
    simp only [if_neg heartbeat, blocks, Nat.zero_add]

end Itch
