import Itch.MoldPackets
import Mathlib.Data.List.GetD

namespace Itch

/-- The packets of one session before its end: each a batch of records, a
heartbeat being the packet without any. Numbers fit the 64-bit field. -/
structure MoldSession where
  session : List UInt8
  first : Nat
  batches : List (List (List UInt8))
  ten : session.length = 10
  positive : 1 ≤ first
  framed : ∀ batch ∈ batches, ∀ rec ∈ batch, IsRecord rec
  small : ∀ batch ∈ batches, batch.length < kMoldEndOfSession
  bound : first + batches.flatten.length < 2 ^ 64

namespace MoldSession

variable (m : MoldSession)

/-- The number of the next message to be sent when packet `k` is. -/
def seqAt (k : Nat) : Nat := m.first + (m.batches.take k).flatten.length

def packet (k : Nat) : List UInt8 :=
  moldPacket m.session (m.seqAt k) (m.batches.getD k []).length (m.batches.getD k [])

def endSeq : Nat := m.seqAt m.batches.length

def endPacket : List UInt8 := moldPacket m.session m.endSeq kMoldEndOfSession []

theorem seqAt_succ (k : Nat) : m.seqAt (k + 1) = m.seqAt k + (m.batches.getD k []).length := by
  by_cases within : k < m.batches.length
  · simp only [seqAt, List.take_succ_eq_append_getElem within, List.flatten_append, List.length_append,
      List.flatten_singleton, List.getD_eq_getElem _ _ within, Nat.add_assoc]
  · have all : m.batches.take (k + 1) = m.batches.take k := by
      rw [List.take_of_length_le (by omega), List.take_of_length_le (by omega)]
    simp only [seqAt, all, List.getD_eq_default _ _ (Nat.le_of_not_lt within), List.length_nil, Nat.add_zero]

theorem seqAt_mono : Monotone m.seqAt :=
  monotone_nat_of_le_succ fun k => by rw [seqAt_succ]; exact Nat.le_add_right ..

theorem seqAt_le_endSeq (k : Nat) : m.seqAt k ≤ m.endSeq := by
  by_cases within : k ≤ m.batches.length
  · exact m.seqAt_mono within
  · have all : m.batches.take k = m.batches.take m.batches.length := by
      rw [List.take_of_length_le (by omega), List.take_length]
    exact (by rw [endSeq, seqAt, seqAt, all] : m.seqAt k = m.endSeq).le

theorem endSeq_lt : m.endSeq < 2 ^ 64 := by
  rw [endSeq, seqAt, List.take_length]
  exact m.bound

theorem seqAt_pos (k : Nat) : 1 ≤ m.seqAt k := m.positive.trans (Nat.le_add_right ..)

theorem batch_framed (k : Nat) : ∀ rec ∈ m.batches.getD k [], IsRecord rec := by
  by_cases within : k < m.batches.length
  · rw [List.getD_eq_getElem _ _ within]
    exact m.framed _ (List.getElem_mem within)
  · rw [List.getD_eq_default _ _ (Nat.le_of_not_lt within)]
    simp

theorem batch_small (k : Nat) : (m.batches.getD k []).length < kMoldEndOfSession := by
  by_cases within : k < m.batches.length
  · rw [List.getD_eq_getElem _ _ within]
    exact m.small _ (List.getElem_mem within)
  · rw [List.getD_eq_default _ _ (Nat.le_of_not_lt within)]
    decide

theorem batch_bound (k : Nat) : m.seqAt k + (m.batches.getD k []).length < 2 ^ 64 := by
  rw [← seqAt_succ]
  exact (m.seqAt_le_endSeq _).trans_lt m.endSeq_lt

theorem packet_header (k : Nat) :
    parseMoldHeader (m.packet k) = some ⟨m.session, m.seqAt k, (m.batches.getD k []).length⟩ := by
  have bound := m.batch_bound k
  have small := m.batch_small k
  exact parseMoldHeader_moldPacket m.ten (by omega) (by unfold kMoldEndOfSession at small; omega) _

theorem packet_messageHeader (k : Nat) :
    messageHeader (m.packet k) = some ⟨m.session, m.seqAt k, (m.batches.getD k []).length⟩ :=
  messageHeader_eq_some.mpr ⟨m.packet_header k, (m.batch_small k).ne⟩

theorem packet_singleSession (k : Nat) : SingleSession m.session (m.packet k) := by
  intro h parsed
  cases (m.packet_header k).symm.trans parsed
  exact ⟨rfl, m.seqAt_pos k, m.batch_bound k⟩

/-- Packet `k` moves the expected number to the first one after it, unless
that is behind. -/
theorem onPacket_next (s : MoldSequencer) (k : Nat) :
    (s.onPacket (m.packet k)).sequencer.next =
      max (s.baseline ⟨m.session, m.seqAt k, (m.batches.getD k []).length⟩).next (m.seqAt (k + 1)) := by
  rw [packet, s.onPacket_moldPacket m.ten (m.batch_framed k) (m.batch_small k) (m.batch_bound k), seqAt_succ]

theorem onPacket_endPacket (s : MoldSequencer) :
    s.onPacket m.endPacket = ⟨s, { endOfSession := true }, []⟩ :=
  s.onPacket_endOfSession m.ten m.endSeq_lt

end MoldSession

end Itch
