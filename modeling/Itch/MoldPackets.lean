import Itch.MoldPartition
import Itch.MoldSend

namespace Itch

/-- A message with its length field in front, as both framings carry it. -/
def IsRecord (rec : List UInt8) : Prop := rec.length = 2 + (loadBe16 rec 0).toNat

theorem loadBe16_append_right (front back : List UInt8) :
    loadBe16 (front ++ back) front.length = loadBe16 back 0 := by
  unfold loadBe16
  rw [← slice_append_right front back 0 2, Nat.add_zero]

theorem loadBe16_append_left {front : List UInt8} (back : List UInt8) (long : 2 ≤ front.length) :
    loadBe16 (front ++ back) 0 = loadBe16 front 0 := by
  unfold loadBe16
  rw [slice_append_left back (by omega)]

theorem moldPacket_length {session : List UInt8} (ten : session.length = 10) (seq count : Nat)
    (blocks : List (List UInt8)) :
    (moldPacket session seq count blocks).length = kMoldHeaderLength + blocks.flatten.length := by
  simp only [moldPacket, List.length_append, BigEndian.encode_length, ten, kMoldHeaderLength]

theorem parseMoldHeader_moldPacket {session : List UInt8} (ten : session.length = 10) {seq count : Nat}
    (seqBound : seq < 2 ^ 64) (countBound : count < 2 ^ 16) (blocks : List (List UInt8)) :
    parseMoldHeader (moldPacket session seq count blocks) = some ⟨session, seq, count⟩ := by
  have long := moldPacket_length ten seq count blocks
  have first : slice (moldPacket session seq count blocks) 0 10 = session := by
    rw [moldPacket, List.append_assoc, List.append_assoc, slice_append_left _ (by omega), slice, List.drop_zero,
      List.take_of_length_le (by omega)]
  have second : slice (moldPacket session seq count blocks) 10 8 = BigEndian.encode 8 seq := by
    rw [moldPacket, List.append_assoc, List.append_assoc, ← ten, ← Nat.add_zero session.length, slice_append_right,
      slice_append_left _ (by simp), slice, List.drop_zero, List.take_of_length_le (by simp)]
  have third : slice (moldPacket session seq count blocks) 18 2 = BigEndian.encode 2 count := by
    have eighteen : 18 = (session ++ BigEndian.encode 8 seq).length + 0 := by simp [ten]
    rw [moldPacket, List.append_assoc, eighteen, slice_append_right, slice_append_left _ (by simp), slice,
      List.drop_zero, List.take_of_length_le (by simp)]
  rw [parseMoldHeader, if_neg (by omega), first, loadBe64_toNat, second, loadBe16_toNat, third,
    BigEndian.decode_encode_of_lt (by simpa using seqBound), BigEndian.decode_encode_of_lt (by simpa using countBound)]

section Blocks

variable {session : List UInt8} {seq : Nat} {blocks : List (List UInt8)} (count : Nat)

/-- A packet cut after its first `k` blocks. -/
theorem moldPacket_split (k : Nat) :
    moldPacket session seq count blocks =
      (moldPacket session seq count (blocks.take k)) ++ (blocks.drop k).flatten := by
  simp only [moldPacket, List.append_assoc, ← List.flatten_append, List.take_append_drop]

theorem blockOffset_moldPacket (ten : session.length = 10) (framed : ∀ rec ∈ blocks, IsRecord rec) {k : Nat}
    (within : k ≤ blocks.length) :
    blockOffset (moldPacket session seq count blocks) k =
      (moldPacket session seq count (blocks.take k)).length := by
  induction k with
  | zero => simp [blockOffset, moldPacket_length ten]
  | succ k ih =>
    have here : k < blocks.length := within
    have record := framed blocks[k] (List.getElem_mem here)
    have field : loadBe16 (moldPacket session seq count blocks)
        (blockOffset (moldPacket session seq count blocks) k) = loadBe16 blocks[k] 0 := by
      rw [ih here.le]
      conv_lhs => rw [moldPacket_split count k, loadBe16_append_right, List.drop_eq_getElem_cons here, List.flatten_cons]
      exact loadBe16_append_left _ (by rw [record]; omega)
    rw [blockOffset, field, ih here.le, moldPacket_length ten, moldPacket_length ten, List.take_succ_eq_append_getElem here,
      List.flatten_append, List.length_append, List.flatten_singleton, record]
    omega

theorem completeBlocks_moldPacket (ten : session.length = 10) (framed : ∀ rec ∈ blocks, IsRecord rec) :
    completeBlocks (moldPacket session seq blocks.length blocks) blocks.length = blocks.length := by
  refine completeBlocks_eq le_rfl ?_ (Or.inl rfl)
  rw [blockOffset_moldPacket _ ten framed le_rfl, List.take_length]

/-- The message delivered for a number of the packet is that block without its length field. -/
theorem message_moldPacket (ten : session.length = 10) (framed : ∀ rec ∈ blocks, IsRecord rec) {k : Nat}
    (here : k < blocks.length) :
    (blockDelivery (moldPacket session seq count blocks) seq (seq + k)).message
      (moldPacket session seq count blocks) = blocks[k].drop 2 := by
  have record := framed blocks[k] (List.getElem_mem here)
  have tail : moldPacket session seq count blocks =
      moldPacket session seq count (blocks.take k) ++ (blocks[k] ++ (blocks.drop (k + 1)).flatten) := by
    rw [moldPacket_split count k, List.drop_eq_getElem_cons here, List.flatten_cons]
  have field : loadBe16 (moldPacket session seq count blocks)
      (moldPacket session seq count (blocks.take k)).length = loadBe16 blocks[k] 0 := by
    rw [tail, loadBe16_append_right]
    exact loadBe16_append_left _ (by rw [record]; omega)
  simp only [Delivery.message, blockDelivery, Nat.add_sub_cancel_left]
  rw [blockOffset_moldPacket _ ten framed here.le, field]
  conv_lhs => rw [tail]
  rw [slice_append_right, slice_append_left _ record.ge, slice, List.take_of_length_le]
  rw [List.length_drop, record]
  omega

end Blocks

/-- A packet of blocks that are records is never malformed, and delivers its
blocks from the expected number on. -/
theorem MoldSequencer.onPacket_moldPacket {session : List UInt8} (ten : session.length = 10) {seq : Nat}
    {blocks : List (List UInt8)} (framed : ∀ rec ∈ blocks, IsRecord rec) (small : blocks.length < kMoldEndOfSession)
    (bound : seq + blocks.length < 2 ^ 64) (s : MoldSequencer) :
    let pkt := moldPacket session seq blocks.length blocks
    let b := s.baseline ⟨session, seq, blocks.length⟩
    s.onPacket pkt =
      { sequencer := { b with next := max b.next (seq + blocks.length) },
        result := { delivered := seq + blocks.length - max b.next seq,
                    gapFirst := if b.next < seq then b.next else 0,
                    gapCount := seq - b.next,
                    malformed := false,
                    sessionChanged := decide (s.next ≠ 0 ∧ session ≠ s.session) },
        calls := (List.range' (max b.next seq) (seq + blocks.length - max b.next seq)).map (blockDelivery pkt seq) } := by
  have header := parseMoldHeader_moldPacket ten (show seq < 2 ^ 64 by omega)
    (show blocks.length < 2 ^ 16 by unfold kMoldEndOfSession at small; omega) blocks
  have outcome := s.onPacket_message header small.ne bound
  simp only [completeBlocks_moldPacket ten framed] at outcome
  simp only [outcome, Nat.lt_irrefl, decide_false]
  congr 2
  omega

theorem MoldSequencer.onPacket_endOfSession {session : List UInt8} (ten : session.length = 10) {seq : Nat}
    (bound : seq < 2 ^ 64) (s : MoldSequencer) :
    s.onPacket (moldPacket session seq kMoldEndOfSession []) = ⟨s, { endOfSession := true }, []⟩ :=
  s.onPacket_end (parseMoldHeader_moldPacket ten bound (by decide) []) rfl

end Itch
