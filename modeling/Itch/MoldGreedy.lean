import Itch.Lib.Greedy
import Itch.MoldBatches

namespace Itch

open Greedy

namespace UdpReceiver

def kMaxPacket : Nat := 2048

/-- How many datagrams one `poll` receives at most. -/
def kBatch : Nat := 64

/-- A `poll` of a socket where these datagrams wait, when the system gives out `n`: `recvmmsg` cuts
each to the size of its buffer. -/
def poll (queue : List (List UInt8)) (n : Nat) : List (List UInt8) × List (List UInt8) :=
  ((queue.take (min n kBatch)).map (List.take kMaxPacket), queue.drop (min n kBatch))

/-- What a series of polls receives. -/
def polls (queue : List (List UInt8)) : List Nat → List (List UInt8)
  | [] => []
  | n :: ns =>
    let (packets, queue) := poll queue n
    packets ++ polls queue ns

/-- Datagrams that fit the buffers are received whole and in order. -/
theorem polls_whole {queue : List (List UInt8)} (small : ∀ pkt ∈ queue, pkt.length ≤ kMaxPacket) (ns : List Nat) :
    polls queue ns = queue.take (ns.map fun n => min n kBatch).sum := by
  induction ns generalizing queue with
  | nil => exact List.take_zero.symm
  | cons n ns ih =>
    have whole : (queue.take (min n kBatch)).map (List.take kMaxPacket) = queue.take (min n kBatch) := by
      refine (List.map_congr_left fun pkt member => ?_).trans (List.map_id _)
      exact List.take_of_length_le (small pkt (List.mem_of_mem_take member))
    have rest := @ih (queue.drop (min n kBatch)) fun pkt member => small pkt (List.mem_of_mem_drop member)
    rw [polls, poll, whole]
    dsimp only
    rw [rest, List.map_cons, List.sum_cons, List.take_add]

end UdpReceiver

namespace SendState

/-- Whether the sender puts these records into one packet: at most 0xFFFE, and together with the
header at most `mtu` bytes, unless it is one record alone. -/
def Packs (mtu : Int) (batch : List (List UInt8)) : Prop :=
  batch.length ≤ 0xFFFE ∧ (batch.length ≤ 1 ∨ (batch.flatten.length : Int) ≤ mtu - 20)

instance (mtu : Int) : DecidablePred (Packs mtu) := fun batch =>
  inferInstanceAs (Decidable (batch.length ≤ 0xFFFE ∧ (batch.length ≤ 1 ∨ (batch.flatten.length : Int) ≤ mtu - 20)))

theorem packs_shorter {mtu : Int} (batch batch' : List (List UInt8)) (part : batch <:+: batch') (packs : Packs mtu batch') :
    Packs mtu batch := by
  obtain ⟨count, bytes⟩ := packs
  have fewer := part.length_le
  obtain ⟨front, back, rfl⟩ := part
  refine ⟨fewer.trans count, ?_⟩
  simp only [List.flatten_append, List.length_append] at fewer bytes ⊢
  omega

theorem packs_single {mtu : Int} (rec : List UInt8) : Packs mtu [rec] := ⟨by simp, .inl (by simp)⟩

/-- The sender has sent the closed groups, and the open one is its batch. -/
structure Follows (session : List UInt8) (st : SendState) (p : Pack (List UInt8)) : Prop where
  sent : st.sent = numberedPackets session p.closed
  seq : st.seq = 1 + p.closed.flatten.length
  batch : st.batch = p.current
  batchBytes : st.batchBytes = p.current.flatten.length
  pending : p.current.length ≤ 0xFFFE

variable {session : List UInt8} {st : SendState} {p : Pack (List UInt8)}

/-- The sender flushes exactly when the record does not fit the open group. -/
theorem Follows.push (follows : st.Follows session p) (mtu : Int) (rec : List UInt8) :
    (st.push session mtu rec).Follows session (p.push (Packs mtu) rec) := by
  obtain ⟨sent, seq, batch, batchBytes, pending⟩ := follows
  rw [SendState.push, Pack.push]
  by_cases none : p.current = []
  · have empty : st.batch = [] := batch.trans none
    have single : Packs mtu (p.current ++ [rec]) := by
      rw [none]
      exact packs_single rec
    rw [flush, if_pos empty, ite_self, if_pos single]
    refine ⟨sent, seq, ?_, ?_, ?_⟩
    · rw [batch]
    · rw [batchBytes, List.flatten_append, List.length_append, List.flatten_singleton]
    · rw [none]
      simp
  · have positive := List.length_pos_of_ne_nil none
    have fits : Packs mtu (p.current ++ [rec]) ↔
        ¬ ((st.batchBytes + rec.length : Int) > mtu - 20 ∨ st.batch.length = 0xFFFE) := by
      rw [Packs, batch, batchBytes]
      simp only [List.length_append, List.flatten_append, List.flatten_singleton, List.length_singleton]
      omega
    by_cases room : Packs mtu (p.current ++ [rec])
    · rw [if_neg (fits.mp room), if_pos room]
      refine ⟨sent, seq, ?_, ?_, room.1⟩
      · rw [batch]
      · rw [batchBytes, List.flatten_append, List.length_append, List.flatten_singleton]
    · rw [if_pos (not_not.mp fun small => room (fits.mpr small)), if_neg room, flush, if_neg (batch ▸ none)]
      refine ⟨?_, ?_, rfl, ?_, by simp⟩
      · rw [numberedPackets_append, ← sent, ← seq, ← batch]
      · simp only [batch, seq, List.flatten_append, List.flatten_singleton, List.length_append, Nat.add_assoc]
      · simp

theorem Follows.foldl (follows : st.Follows session p) (mtu : Int) (recs : List (List UInt8)) :
    (recs.foldl (SendState.push session mtu) st).Follows session (recs.foldl (Pack.push (Packs mtu)) p) := by
  induction recs generalizing st p with
  | nil => exact follows
  | cons rec recs ih => exact ih (follows.push mtu rec)

/-- After the last flush the packets are all groups. -/
theorem Follows.flush (follows : st.Follows session p) : (st.flush session).sent = numberedPackets session p.groups := by
  rw [SendState.flush, Pack.groups, follows.batch]
  split
  · exact follows.sent
  · rw [numberedPackets_append, ← follows.sent, ← follows.seq]

theorem start_follows (session : List UInt8) : Follows session {} {} where
  sent := rfl
  seq := rfl
  batch := rfl
  batchBytes := rfl
  pending := Nat.zero_le _

end SendState

/-- The sender's batches split the records of the file as the limits on a packet allow, and every
such split has at least as many packets. Where all records fit a packet and packets the buffers of
the receiver, polls receive the packets whole and in order, however many each one gets. -/
theorem moldSend_fewest (name : List UInt8) (mtu : Int) (data : List UInt8) :
    ∃ batches, Split (SendState.Packs mtu) (records data) batches ∧
      dataPackets (moldSession name) mtu data = numberedPackets (moldSession name) batches ∧
      (∀ others, Split (SendState.Packs mtu) (records data) others → batches.length ≤ others.length) ∧
      (mtu ≤ UdpReceiver.kMaxPacket → (∀ rec ∈ records data, (rec.length : Int) ≤ mtu - 20) → ∀ ns,
        UdpReceiver.polls (moldSend name mtu data) ns =
          (moldSend name mtu data).take (ns.map fun n => min n UdpReceiver.kBatch).sum) := by
  obtain ⟨split, fewest⟩ := Pack.fewest (@SendState.packs_shorter mtu) SendState.packs_single (records data)
  have packets := ((SendState.start_follows (moldSession name)).foldl mtu (records data)).flush
  generalize ((records data).foldl (Pack.push (SendState.Packs mtu)) {}).groups = batches at split fewest packets
  refine ⟨batches, split, packets, fewest, fun small recs ns => UdpReceiver.polls_whole (fun pkt member => ?_) ns⟩
  have ten := moldSession_length name
  rw [moldSend] at member
  rcases List.mem_append.mp member with sent | last
  · change pkt ∈ dataPackets (moldSession name) mtu data at sent
    rw [show dataPackets (moldSession name) mtu data = _ from packets, numberedPackets] at sent
    obtain ⟨k, inside, rfl⟩ := List.mem_map.mp sent
    have less := List.mem_range.mp inside
    rw [moldPacket_length ten, List.getD_eq_getElem _ _ less]
    have batch := List.getElem_mem less
    generalize batches[k] = b at batch ⊢
    have bytes : (b.flatten.length : Int) ≤ mtu - 20 := by
      rcases (split.fit b batch).2 with single | bytes
      · obtain ⟨rec, rfl⟩ : ∃ rec, b = [rec] := by
          refine List.length_eq_one_iff.mp (Nat.le_antisymm single ?_)
          exact List.length_pos_of_ne_nil (split.nonempty b batch)
        rw [List.flatten_singleton]
        refine recs rec ?_
        rw [← split.flatten]
        exact List.mem_flatten_of_mem batch (List.mem_singleton_self rec)
      · exact bytes
    simp only [UdpReceiver.kMaxPacket, kMoldHeaderLength] at small ⊢
    omega
  · rw [(List.mem_replicate.mp last).2, moldPacket_length ten]
    decide

/-- Three records of one byte, of which two fit a packet: no split has fewer than two packets,
and two polls receive all that is sent. -/
theorem moldSend_fewest_sample :
    let data := [0, 1, 65, 0, 1, 66, 0, 1, 67]
    (∀ others, Split (SendState.Packs 26) (records data) others → 2 ≤ others.length) ∧
      UdpReceiver.polls (moldSend [88] 26 data) [1, 5] = moldSend [88] 26 data := by
  intro data
  obtain ⟨batches, -, packets, fewest, whole⟩ := moldSend_fewest [88] 26 data
  have two : (dataPackets (moldSession [88]) 26 data).length = 2 := by decide
  rw [packets, numberedPackets, List.length_map, List.length_range] at two
  refine ⟨fun others split => two.symm.trans_le (fewest others split), ?_⟩
  rw [whole (by decide) (by decide) [1, 5]]
  exact List.take_of_length_le (by decide)

end Itch
