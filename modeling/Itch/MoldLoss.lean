import Itch.MoldSession

namespace Itch

def totalDelivered (outcomes : List MoldOutcome) : Nat := (outcomes.map fun o => o.result.delivered).sum

def totalLost (outcomes : List MoldOutcome) : Nat := (outcomes.map fun o => o.result.gapCount).sum

/-- In a run of one session the totals are the distance from the baseline. -/
theorem MoldSequencer.totals_eq {session : List UInt8} (pkts : List (List UInt8))
    (input : ∀ pkt ∈ pkts, SingleSession session pkt) :
    baselineOf pkts + (totalDelivered (({} : MoldSequencer).feed pkts) + totalLost (({} : MoldSequencer).feed pkts)) =
      (({} : MoldSequencer).after pkts).next := by
  induction pkts using List.reverseRecOn with
  | nil => simp [totalDelivered, totalLost, feed, baselineOf, after]
  | append_singleton pkts pkt ih =>
    have earlier : ∀ p ∈ pkts, SingleSession session p := fun p member => input p (List.mem_append_left _ member)
    have acc := accounted pkts earlier
    have total := ih earlier
    have growth := acc.growth (input pkt (by simp))
    simp only [totalDelivered, totalLost] at total
    rw [feed_append, after_append, growth]
    simp only [totalDelivered, totalLost, List.map_append, List.map_singleton, List.sum_append, List.sum_singleton]
    by_cases fresh : (({} : MoldSequencer).after pkts).next = 0
    · rw [if_pos fresh]
      omega
    · rw [if_neg fresh, baselineOf_append, if_neg (fun none => fresh (acc.started.mpr none))]
      omega

namespace MoldSession

variable (m : MoldSession)

/-- The end-of-session packet changes nothing and accounts for nothing. -/
theorem feed_endPackets (s : MoldSequencer) (copies : Nat) :
    s.feed (List.replicate copies m.endPacket) = List.replicate copies ⟨s, { endOfSession := true }, []⟩ := by
  induction copies with
  | zero => rfl
  | succ copies ih => rw [List.replicate_succ, MoldSequencer.feed, m.onPacket_endPacket, ih, List.replicate_succ]

theorem totals_endPackets (s : MoldSequencer) (front : List (List UInt8)) (copies : Nat) :
    totalDelivered (s.feed (front ++ List.replicate copies m.endPacket)) = totalDelivered (s.feed front) ∧
      totalLost (s.feed (front ++ List.replicate copies m.endPacket)) = totalLost (s.feed front) := by
  rw [s.feed_append_list, feed_endPackets]
  simp [totalDelivered, totalLost]

theorem packets_singleSession (received : List Nat) : ∀ pkt ∈ received.map m.packet, SingleSession m.session pkt := by
  intro pkt member
  obtain ⟨k, _, rfl⟩ := List.mem_map.mp member
  exact m.packet_singleSession k

theorem baselineOf_packets {first : Nat} (received : List Nat) :
    baselineOf ((first :: received).map m.packet) = m.seqAt first := by
  simp [baselineOf, packet_messageHeader]

/-- After packets of the session in any order, the expected number is the
furthest end among them. -/
theorem after_packets {received : List Nat} (some : received ≠ []) :
    (∀ k ∈ received, m.seqAt (k + 1) ≤ (({} : MoldSequencer).after (received.map m.packet)).next) ∧
      ∃ k ∈ received, (({} : MoldSequencer).after (received.map m.packet)).next = m.seqAt (k + 1) := by
  induction received using List.reverseRecOn with
  | nil => exact absurd rfl some
  | append_singleton received k ih =>
    have acc := MoldSequencer.accounted _ (m.packets_singleSession received)
    have base := acc.baseline_next (m.packet_messageHeader k) rfl
    have next := m.onPacket_next (({} : MoldSequencer).after (received.map m.packet)) k
    rw [List.map_append, List.map_singleton, MoldSequencer.after_append, next, base]
    by_cases first : received = []
    · subst first
      have alone : baselineOf ([].map m.packet ++ [m.packet k]) = m.seqAt k := m.baselineOf_packets []
      have grows := m.seqAt_mono (Nat.le_succ k)
      have fresh : (({} : MoldSequencer).after ([].map m.packet)).next = 0 := rfl
      rw [if_pos fresh, alone, max_eq_right grows]
      simp
    · obtain ⟨above, last, member, reached⟩ := ih first
      have positive := m.seqAt_pos (last + 1)
      rw [if_neg (by omega)]
      constructor
      · intro i within
        rcases List.mem_append.mp within with before | now
        · exact (above i before).trans (le_max_left _ _)
        · rw [List.mem_singleton.mp now]
          exact le_max_right _ _
      · rcases le_total (m.seqAt (k + 1)) (m.seqAt (last + 1)) with behind | ahead
        · exact ⟨last, List.mem_append_left _ member, by rw [reached, max_eq_left behind]⟩
        · exact ⟨k, by simp, by rw [reached, max_eq_right ahead]⟩

/-- What a new sequencer makes of some packets and of the end of the session. -/
def outcomes (received : List Nat) (copies : Nat) : List MoldOutcome :=
  ({} : MoldSequencer).feed (received.map m.packet ++ List.replicate (copies + 1) m.endPacket)

/-- The totals cover the session exactly when one of the packets received
before the end of session ends with the session's last message. -/
theorem totals_cover_iff {first : Nat} (received : List Nat) (copies : Nat) :
    totalDelivered (m.outcomes (first :: received) copies) + totalLost (m.outcomes (first :: received) copies) =
        m.endSeq - m.seqAt first ↔
      ∃ k ∈ first :: received, m.seqAt k + (m.batches.getD k []).length = m.endSeq := by
  obtain ⟨delivered, lost⟩ := m.totals_endPackets {} ((first :: received).map m.packet) (copies + 1)
  have totals := MoldSequencer.totals_eq _ (m.packets_singleSession (first :: received))
  obtain ⟨above, last, member, reached⟩ := m.after_packets (List.cons_ne_nil first received)
  have start := m.seqAt_le_endSeq first
  rw [m.baselineOf_packets] at totals
  simp only [outcomes, delivered, lost, ← seqAt_succ]
  constructor
  · intro covered
    exact ⟨last, member, by omega⟩
  · rintro ⟨k, within, ends⟩
    have upper := above k within
    have bound := m.seqAt_le_endSeq (last + 1)
    omega

end MoldSession

/-- Two packets of one message each. -/
def twoMessages : MoldSession where
  session := List.replicate 10 65
  first := 1
  batches := [[[0, 1, 7]], [[0, 1, 8]]]
  ten := rfl
  positive := le_rfl
  framed := by simp [IsRecord]; decide
  small := by decide
  bound := by decide

/-- Of two messages the second is lost, and no count says so. -/
theorem MoldSession.last_message_lost_uncounted :
    ¬ ∀ (m : MoldSession) (first : Nat) (received : List Nat) (copies : Nat),
      (∀ k ∈ first :: received, k < m.batches.length) → (first :: received).Pairwise (· ≤ ·) →
      totalDelivered (m.outcomes (first :: received) copies) + totalLost (m.outcomes (first :: received) copies) =
        m.endSeq - m.seqAt first := by
  intro always
  have covered := always twoMessages 0 [] 0 (by decide) (by decide)
  revert covered
  decide

end Itch
