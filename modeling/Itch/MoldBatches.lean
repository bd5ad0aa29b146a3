import Itch.MoldSession

namespace Itch

/-- The sender's records are the stream's messages with their length fields. -/
theorem recordsFrom_messages (data : List UInt8) (fuel off : Nat) :
    (∀ rec ∈ recordsFrom data fuel off, IsRecord rec) ∧
      (recordsFrom data fuel off).map (List.drop 2) = messagesFrom data fuel off := by
  induction fuel generalizing off with
  | zero => simp [recordsFrom, messagesFrom]
  | succ fuel ih =>
    simp only [recordsFrom, messagesFrom]
    by_cases field : off + 2 ≤ data.length
    · by_cases short : data.length < off + 2 + (loadBe16 data off).toNat
      · simp [field, short]
      · obtain ⟨framed, same⟩ := ih (off + 2 + (loadBe16 data off).toNat)
        have whole : (slice data off (2 + (loadBe16 data off).toNat)).length = 2 + (loadBe16 data off).toNat :=
          slice_length (by omega)
        have number : loadBe16 (slice data off (2 + (loadBe16 data off).toNat)) 0 = loadBe16 data off := by
          simp only [loadBe16, slice, List.drop_zero, List.take_take]
          congr 3
          omega
        have body : (slice data off (2 + (loadBe16 data off).toNat)).drop 2 =
            slice data (off + 2) (loadBe16 data off).toNat := by
          simp only [slice, List.drop_take, List.drop_drop]
          congr 1
          omega
        simp only [if_pos field, if_neg short, List.map_cons, same, body, List.mem_cons, forall_eq_or_imp]
        exact ⟨⟨by rw [IsRecord, whole, number], framed⟩, trivial⟩
    · simp [field]

theorem recordsFrom_length (data : List UInt8) (fuel off : Nat) :
    2 * (recordsFrom data fuel off).length ≤ data.length - off := by
  induction fuel generalizing off with
  | zero => simp [recordsFrom]
  | succ fuel ih =>
    simp only [recordsFrom]
    split
    · split
      · simp
      · have rest := ih (off + 2 + (loadBe16 data off).toNat)
        rw [List.length_cons]
        omega
    · simp

/-- Batches numbered from 1 on, as packets. -/
def numberedPackets (session : List UInt8) (batches : List (List (List UInt8))) : List (List UInt8) :=
  (List.range batches.length).map fun k =>
    moldPacket session (1 + (batches.take k).flatten.length) (batches.getD k []).length (batches.getD k [])

theorem numberedPackets_append (session : List UInt8) (batches : List (List (List UInt8))) (batch : List (List UInt8)) :
    numberedPackets session (batches ++ [batch]) =
      numberedPackets session batches ++ [moldPacket session (1 + batches.flatten.length) batch.length batch] := by
  unfold numberedPackets
  rw [List.length_append, List.length_singleton, List.range_succ, List.map_append, List.map_singleton]
  congr 1
  · apply List.map_congr_left
    intro k member
    have within := List.mem_range.mp member
    rw [List.take_append_of_le_length within.le, List.getD_append _ _ _ _ within]
  · rw [List.take_left, List.getD_append_right _ _ _ _ le_rfl, Nat.sub_self]
    rfl

/-- The sender's state after some records: the packets sent are batches of
them, and the pending batch holds the rest. -/
structure SendState.Batched (session : List UInt8) (st : SendState) (processed : List (List UInt8))
    (batches : List (List (List UInt8))) : Prop where
  sent : st.sent = numberedPackets session batches
  seq : st.seq = 1 + batches.flatten.length
  all : processed = batches.flatten ++ st.batch
  sizes : ∀ batch ∈ batches, batch ≠ [] ∧ batch.length ≤ 0xFFFE
  pending : st.batch.length ≤ 0xFFFE

theorem SendState.Batched.flush {session : List UInt8} {st : SendState} {processed : List (List UInt8)}
    {batches : List (List (List UInt8))} (batched : st.Batched session processed batches) :
    ∃ batches', (st.flush session).Batched session processed batches' ∧ (st.flush session).batch = [] := by
  unfold SendState.flush
  by_cases empty : st.batch = []
  · rw [if_pos empty]
    exact ⟨batches, batched, empty⟩
  · rw [if_neg empty]
    refine ⟨batches ++ [st.batch], ⟨?_, ?_, ?_, ?_, by simp⟩, rfl⟩
    · rw [numberedPackets_append, batched.sent, batched.seq]
    · simp [batched.seq, Nat.add_assoc]
    · simp [batched.all]
    · intro batch member
      rcases List.mem_append.mp member with old | new
      · exact batched.sizes batch old
      · rw [List.mem_singleton.mp new]
        exact ⟨empty, batched.pending⟩

theorem SendState.Batched.push {session : List UInt8} (mtu : Int) {st : SendState} {processed : List (List UInt8)}
    {batches : List (List (List UInt8))} (batched : st.Batched session processed batches) (rec : List UInt8) :
    ∃ batches', (st.push session mtu rec).Batched session (processed ++ [rec]) batches' := by
  unfold SendState.push
  split
  · obtain ⟨batches', flushed, empty⟩ := batched.flush
    exact ⟨batches', flushed.sent, flushed.seq, by simp [flushed.all], flushed.sizes, by simp [empty]⟩
  · rename_i room
    have pending := batched.pending
    exact ⟨batches, batched.sent, batched.seq, by simp [batched.all], batched.sizes, by simp; omega⟩

theorem SendState.Batched.foldl {session : List UInt8} (mtu : Int) (recs : List (List UInt8)) {st : SendState}
    {processed : List (List UInt8)} {batches : List (List (List UInt8))}
    (batched : st.Batched session processed batches) :
    ∃ batches', (recs.foldl (SendState.push session mtu) st).Batched session (processed ++ recs) batches' := by
  induction recs generalizing st processed batches with
  | nil => exact ⟨batches, by simpa using batched⟩
  | cons rec recs ih =>
    obtain ⟨next, pushed⟩ := batched.push mtu rec
    obtain ⟨last, done⟩ := ih pushed
    exact ⟨last, by simpa using done⟩

theorem moldSession_length (name : List UInt8) : (moldSession name).length = 10 := by
  simp only [moldSession, List.length_append, List.length_take, List.length_replicate]
  omega

/-- A file's packets are those of one session, numbered from 1, whose batches
are nonempty and together are the file's records. -/
theorem moldSend_session (name : List UInt8) (mtu : Int) {data : List UInt8} (fits : data.length < 2 ^ 64) :
    ∃ m : MoldSession, m.session = moldSession name ∧ m.first = 1 ∧ m.batches.flatten = records data ∧
      (∀ batch ∈ m.batches, batch ≠ []) ∧
      dataPackets (moldSession name) mtu data = (List.range m.batches.length).map m.packet ∧
      moldSend name mtu data =
        dataPackets (moldSession name) mtu data ++ List.replicate 3 m.endPacket := by
  have start : SendState.Batched (moldSession name) {} [] [] := ⟨rfl, rfl, rfl, by simp, by simp⟩
  obtain ⟨batches, pushed⟩ := start.foldl mtu (records data)
  obtain ⟨batches, flushed, empty⟩ := pushed.flush
  have all : records data = batches.flatten := by
    have all := flushed.all
    rwa [empty, List.append_nil, List.nil_append] at all
  have framed := (recordsFrom_messages data data.length 0).1
  have count := recordsFrom_length data data.length 0
  refine ⟨{ session := moldSession name, first := 1, batches := batches, ten := moldSession_length name,
            positive := le_rfl, framed := ?_, small := ?_, bound := ?_ }, rfl, rfl, all.symm,
          fun batch member => (flushed.sizes batch member).1, flushed.sent, ?_⟩
  · intro batch member rec inside
    exact framed rec (by rw [← records, all]; exact List.mem_flatten.mpr ⟨batch, member, inside⟩)
  · intro batch member
    have size := (flushed.sizes batch member).2
    unfold kMoldEndOfSession
    omega
  · rw [← all, records]
    omega
  · have last : (sendRecords (moldSession name) mtu data).seq = 1 + batches.flatten.length := flushed.seq
    simp only [moldSend, dataPackets, last, MoldSession.endPacket, MoldSession.endSeq, MoldSession.seqAt, List.take_length]
    rfl

end Itch
