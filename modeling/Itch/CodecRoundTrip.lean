import Itch.MessageTypes

namespace Itch

/-- The header of a decoded header: the same but for the high bits of the timestamp. -/
theorem Header.decode_encode (type : Char) (m : Header) (rest : List UInt8) :
    Header.decode (m.encode type ++ rest) = { m with timestamp := m.timestamp % 0x1000000000000 } := by
  have length := m.encode_length type
  have locate : slice (m.encode type ++ rest) 1 2 = BigEndian.encode 2 m.locate.toNat := by
    rw [slice_append_left _ (by omega), encode, List.append_assoc, List.append_assoc, slice_skip (Nat.le_refl 1)]
    exact slice_front (by simp) _
  have tracking : slice (m.encode type ++ rest) 3 2 = BigEndian.encode 2 m.tracking.toNat := by
    rw [slice_append_left _ (by omega), encode, List.append_assoc, slice_skip (by simp)]
    exact slice_front (by simp) _
  have timestamp : slice (m.encode type ++ rest) 5 6 = BigEndian.encode 6 m.timestamp.toNat := by
    rw [slice_append_left _ (by omega), encode, slice_skip (by simp)]
    exact List.take_of_length_le (by simp)
  have low : loadBe48Overread (m.encode type ++ rest) 5 = m.timestamp % 0x1000000000000 := by
    refine UInt64.toNat_inj.mp ?_
    rw [loadBe48Overread_toNat (by decide) (by rw [List.length_append]; omega), timestamp, BigEndian.decode_encode]
    rfl
  rw [decode, loadBe16_of_slice locate, loadBe16_of_slice tracking, low]

/-- A header that was decoded has the bytes it was decoded from. -/
theorem Header.encode_decode {type : Char} {p : List UInt8} (first : byteAt p 0 = ascii type) (inside : 11 ≤ p.length) :
    (Header.decode p).encode type = slice p 0 11 := by
  have word : ∀ offset width, offset + width ≤ p.length →
      BigEndian.encode width (BigEndian.decode (slice p offset width)) = slice p offset width := by
    intro offset width fits
    have same := BigEndian.encode_decode (slice p offset width)
    rwa [slice_length fits] at same
  have one : 0 + FieldType.char.size ≤ p.length := by
    change 0 + 1 ≤ p.length
    omega
  have byte : [byteAt p 0] = slice p 0 1 := valueBytes_decodeValue one
  rw [encode, decode]
  dsimp only
  rw [loadBe16_toNat, loadBe16_toNat, loadBe48Overread_toNat (by decide) inside, word 1 2 (by omega), word 3 2 (by omega),
    word 5 6 inside, ← first, byte, ← slice_append, ← slice_append, ← slice_append]

namespace MessageType

variable {M : MessageType}

/-- The bytes of a message on the wire. -/
def wireBytes (M : MessageType) (m : Struct M) : List UInt8 := m.toHeader.encode M.kType ++ bodyBytes M.kFields m.values

section Tiled

variable (tiles : M.fieldsTileMessage = true)
include tiles

theorem wireBytes_length (m : Struct M) : (M.wireBytes m).length = M.kLength := by
  rw [wireBytes, List.length_append, Header.encode_length]
  exact bodyBytes_length (M.fieldsTileMessage_iff.mp tiles) m.values

/-- Encoding is one write of the bytes of the message. -/
theorem encode_eq (m : Struct M) (out : List UInt8) :
    M.encode m out = M.wireBytes m ++ out.drop M.kLength := by
  have tiled := M.fieldsTileMessage_iff.mp tiles
  have length := wireBytes_length tiles m
  have header := m.toHeader.encode_length M.kType
  have start := Nat.zero_le out.length
  rw [wireBytes, List.length_append, header] at length
  have five := store_length start ([ascii M.kType] ++ BigEndian.encode 2 m.locate.toNat ++ BigEndian.encode 2 m.tracking.toNat)
  have eleven := store_length start (m.toHeader.encode M.kType)
  rw [header] at eleven
  rw [encode, storeBe16, storeBe16, store_next start (by rfl), store_next start (by simp),
    storeBe48_eq (by simpa using five), store_next start (by simp)]
  change encodeFields M.kFields m.values (store out 0 (m.toHeader.encode M.kType)) = _
  rw [encodeFields_eq tiled _ (by rw [kHeaderLength]; omega), store_next start (by rw [header, kHeaderLength]), store_zero,
    List.length_append, header, length, wireBytes]

theorem decode_encode (m : Struct M) (out : List UInt8) :
    M.decode (M.encode m out) = { m with timestamp := m.timestamp % 0x1000000000000 } := by
  have tiled := M.fieldsTileMessage_iff.mp tiles
  have header := Header.decode_encode M.kType m.toHeader (bodyBytes M.kFields m.values ++ out.drop M.kLength)
  have values := decodeFields_bodyBytes tiled m.values (m.toHeader.encode_length M.kType) (out.drop M.kLength)
  rw [encode_eq tiles m out, wireBytes, List.append_assoc]
  exact congr (congrArg Struct.mk header) values

theorem encode_decode {w out : List UInt8} (length : w.length = M.kLength) (first : byteAt w 0 = ascii M.kType)
    (room : out.length = M.kLength) : M.encode (M.decode w) out = w := by
  have tiled := M.fieldsTileMessage_iff.mp tiles
  have whole := bodyBytes_length tiled (M.decode w).values
  have inside : 11 ≤ w.length := by
    rw [kHeaderLength] at whole
    omega
  have header := Header.encode_decode first inside
  have body := bodyBytes_decodeFields tiled length.ge
  rw [encode_eq tiles _ out, List.drop_eq_nil_of_le room.le, List.append_nil, wireBytes]
  change (Header.decode w).encode M.kType ++ bodyBytes M.kFields (decodeFields w M.kFields) = w
  rw [header, body, kHeaderLength, ← Nat.zero_add 11, ← slice_append, ← length, Nat.zero_add, Nat.add_sub_cancel' inside,
    slice_whole]

theorem decode_encode_iff (m : Struct M) (out : List UInt8) :
    M.decode (M.encode m out) = m ↔ m.timestamp < 0x1000000000000 := by
  rw [decode_encode tiles m out]
  constructor
  · intro same
    have timestamp := congrArg (fun m : Struct M => m.timestamp.toNat) same
    have low : m.timestamp.toNat % 2 ^ 48 = m.timestamp.toNat := timestamp
    rw [UInt64.lt_iff_toNat_lt]
    exact Nat.mod_eq_iff_lt (by decide) |>.mp low
  · intro small
    have low : m.timestamp % 0x1000000000000 = m.timestamp := by
      refine UInt64.toNat_inj.mp ?_
      rw [UInt64.toNat_mod]
      exact Nat.mod_eq_of_lt (UInt64.lt_iff_toNat_lt.mp small)
    rw [low]

end Tiled

/-- The codec of a message type is a bijection, up to the 48 bits that a timestamp has on
the wire: `encode` writes just the bytes of the message, and each byte after the header is
one field's. -/
structure Bijective (M : MessageType) : Prop where
  encode_decode : ∀ w out : List UInt8, w.length = M.kLength → byteAt w 0 = ascii M.kType → out.length = M.kLength →
    M.encode (M.decode w) out = w
  decode_encode : ∀ (m : Struct M) (out : List UInt8), M.kLength ≤ out.length →
    M.decode (M.encode m out) = { m with timestamp := m.timestamp % 0x1000000000000 }
  decode_encode_iff : ∀ (m : Struct M) (out : List UInt8), M.kLength ≤ out.length →
    (M.decode (M.encode m out) = m ↔ m.timestamp < 0x1000000000000)
  writes : ∀ m : Struct M, ∃ bytes : List UInt8, bytes.length = M.kLength ∧
    ∀ out, M.kLength ≤ out.length → M.encode m out = bytes ++ out.drop M.kLength
  field_unique : ∀ i, kHeaderLength ≤ i → i < M.kLength → ∃! j : Nat, ∃ f : Field, M.kFields[j]? = some f ∧ f.Holds i

theorem bijective_of_tiles (tiles : M.fieldsTileMessage = true) : M.Bijective where
  encode_decode _ _ length first room := encode_decode tiles length first room
  decode_encode m out _ := decode_encode tiles m out
  decode_encode_iff m out _ := decode_encode_iff tiles m out
  writes m := ⟨M.wireBytes m, wireBytes_length tiles m, fun out _ => encode_eq tiles m out⟩
  field_unique _ after before := field_unique (M.fieldsTileMessage_iff.mp tiles) after before

/-- The codec is exact for every field list that tiles its message, so for all messages. -/
theorem codec_bijective :
    (∀ M : MessageType, M.fieldsTileMessage = true → M.Bijective) ∧ ∀ M ∈ MessageType.all, M.Bijective :=
  ⟨fun _ tiles => bijective_of_tiles tiles, fun M member => bijective_of_tiles (all_tile M member)⟩

theorem codec_bijective_sample : addOrder.Bijective ∧ noii.Bijective :=
  ⟨codec_bijective.1 addOrder (by decide), codec_bijective.2 noii (by simp [MessageType.all])⟩

end MessageType

end Itch
