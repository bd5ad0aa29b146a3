import Itch.Codec

namespace Itch

/-- The bytes of a value on the wire. -/
def valueBytes : (t : FieldType) → t.Value → List UInt8
  | .char, v => [v]
  | .u16, v => BigEndian.encode 2 v.toNat
  | .u32, v => BigEndian.encode 4 v.toNat
  | .u64, v => BigEndian.encode 8 v.toNat
  | .alpha _ _, v => List.ofFn v

theorem valueBytes_length (t : FieldType) (v : t.Value) : (valueBytes t v).length = t.size := by
  cases t with
  | char => rfl
  | u16 => exact BigEndian.encode_length 2 _
  | u32 => exact BigEndian.encode_length 4 _
  | u64 => exact BigEndian.encode_length 8 _
  | alpha n some => exact List.length_ofFn

theorem encodeValue_eq (out : List UInt8) (offset : Nat) (t : FieldType) (v : t.Value) :
    encodeValue out offset t v = store out offset (valueBytes t v) := by
  cases t <;> rfl

/-- A byte of a slice is a byte of the buffer. -/
theorem byteAt_slice (p : List UInt8) (offset : Nat) {i width : Nat} (inside : i < width) :
    byteAt (slice p offset width) i = byteAt p (offset + i) := by
  rw [byteAt, byteAt, List.getD_eq_getElem?_getD, List.getD_eq_getElem?_getD, slice, List.getElem?_take_of_lt inside,
    List.getElem?_drop]

section Alpha

variable {p : List UInt8} {offset n : Nat}

theorem alpha_of_slice {v : Fin n → UInt8} (here : slice p offset n = List.ofFn v) :
    (fun i : Fin n => byteAt p (offset + i)) = v := by
  funext i
  rw [← byteAt_slice p offset i.isLt, here, byteAt, List.getD_eq_getElem?_getD, List.getElem?_ofFn, dif_pos i.isLt]
  rfl

theorem alpha_bytes (inside : offset + n ≤ p.length) :
    List.ofFn (fun i : Fin n => byteAt p (offset + i)) = slice p offset n := by
  refine List.ext_getElem (by rw [List.length_ofFn, slice_length inside]) fun i left right => ?_
  rw [List.length_ofFn] at left
  rw [List.getElem_ofFn, ← byteAt_slice p offset left, byteAt, List.getD_eq_getElem?_getD, List.getElem?_eq_getElem right]
  rfl

end Alpha

/-- A value is decoded from its bytes. -/
theorem decodeValue_of_slice {p : List UInt8} {offset : Nat} {t : FieldType} {v : t.Value}
    (here : slice p offset t.size = valueBytes t v) : decodeValue p offset t = v := by
  cases t with
  | char =>
    have byte := byteAt_slice p offset (Nat.zero_lt_one : 0 < 1)
    have first : slice p offset 1 = [v] := here
    rw [first] at byte
    exact byte.symm
  | u16 => exact loadBe16_of_slice here
  | u32 => exact loadBe32_of_slice here
  | u64 => exact loadBe64_of_slice here
  | alpha n some => exact alpha_of_slice here

/-- A value that was decoded has the bytes it was decoded from. -/
theorem valueBytes_decodeValue {p : List UInt8} {offset : Nat} {t : FieldType} (inside : offset + t.size ≤ p.length) :
    valueBytes t (decodeValue p offset t) = slice p offset t.size := by
  have length := slice_length inside
  have word := BigEndian.encode_decode (slice p offset t.size)
  rw [length] at word
  cases t with
  | char =>
    obtain ⟨b, here⟩ := List.length_eq_one_iff.mp length
    have byte := byteAt_slice p offset (Nat.zero_lt_one : 0 < 1)
    have first : slice p offset 1 = [b] := here
    rw [first] at byte
    rw [here]
    exact congrArg (fun b => [b]) byte.symm
  | u16 =>
    rw [valueBytes, decodeValue, loadBe16_toNat]
    exact word
  | u32 =>
    rw [valueBytes, decodeValue, loadBe32_toNat]
    exact word
  | u64 =>
    rw [valueBytes, decodeValue, loadBe64_toNat]
    exact word
  | alpha n some => exact alpha_bytes inside

/-- The byte at `i` is one of the field. -/
def Field.Holds (f : Field) (i : Nat) : Prop := f.offset ≤ i ∧ i < f.offset + f.type.size

/-- Fields that are contiguous from `next` to `stop`. -/
def TileFrom : Nat → List Field → Nat → Prop
  | next, [], stop => next = stop
  | next, f :: fs, stop => f.offset = next ∧ TileFrom (f.offset + f.type.size) fs stop

theorem MessageType.fieldsTileMessage_iff (M : MessageType) :
    M.fieldsTileMessage = true ↔ TileFrom kHeaderLength M.kFields M.kLength := by
  have walk : ∀ (fs : List Field) (ok : Bool) (next : Nat),
      let last := fs.foldl (fun (s : Bool × Nat) f => (s.1 && f.offset == s.2, f.offset + f.type.size)) (ok, next)
      ((last.1 && last.2 == M.kLength) = true ↔ ok = true ∧ TileFrom next fs M.kLength) := by
    intro fs
    induction fs with
    | nil => simp [TileFrom]
    | cons f fs ih =>
      intro ok next
      rw [List.foldl_cons]
      refine (ih (ok && f.offset == next) (f.offset + f.type.size)).trans ?_
      simp [TileFrom, and_assoc]
  exact (walk M.kFields true kHeaderLength).trans (and_iff_right rfl)

/-- The bytes of all fields. -/
def bodyBytes : (fs : List Field) → Values fs → List UInt8
  | [], _ => []
  | f :: fs, (v, vs) => valueBytes f.type v ++ bodyBytes fs vs

section Tiled

variable {fs : List Field} {next stop : Nat} (tiles : TileFrom next fs stop)
include tiles

theorem bodyBytes_length (vs : Values fs) : next + (bodyBytes fs vs).length = stop := by
  induction fs generalizing next with
  | nil => exact tiles
  | cons f fs ih =>
    obtain ⟨v, vs⟩ := vs
    obtain ⟨rfl, rest⟩ := tiles
    rw [bodyBytes, List.length_append, valueBytes_length, ← Nat.add_assoc]
    exact ih rest vs

/-- Contiguous fields are written as one piece. -/
theorem encodeFields_eq (vs : Values fs) {out : List UInt8} (inside : next ≤ out.length) :
    encodeFields fs vs out = store out next (bodyBytes fs vs) := by
  induction fs generalizing next out with
  | nil => exact (store_nil out next).symm
  | cons f fs ih =>
    obtain ⟨v, vs⟩ := vs
    obtain ⟨rfl, rest⟩ := tiles
    have longer := store_length inside (valueBytes f.type v)
    have width := valueBytes_length f.type v
    rw [width] at longer
    rw [encodeFields, encodeValue_eq, ih rest vs longer, store_next inside (by rw [width]), bodyBytes]

theorem decodeFields_bodyBytes (vs : Values fs) {front : List UInt8} (here : front.length = next) (back : List UInt8) :
    decodeFields (front ++ (bodyBytes fs vs ++ back)) fs = vs := by
  induction fs generalizing next front with
  | nil => rfl
  | cons f fs ih =>
    obtain ⟨v, vs⟩ := vs
    obtain ⟨rfl, rest⟩ := tiles
    have length := valueBytes_length f.type v
    have first : slice (front ++ (bodyBytes (f :: fs) (v, vs) ++ back)) f.offset f.type.size = valueBytes f.type v := by
      rw [slice_skip here.le, here, Nat.sub_self, bodyBytes, List.append_assoc]
      exact slice_front length _
    have after : (front ++ valueBytes f.type v).length = f.offset + f.type.size := by rw [List.length_append, here, length]
    have others := ih rest vs after
    rw [List.append_assoc, ← List.append_assoc (valueBytes f.type v)] at others
    rw [decodeFields, decodeValue_of_slice first]
    exact congrArg (Prod.mk v) others

theorem bodyBytes_decodeFields {p : List UInt8} (inside : stop ≤ p.length) :
    bodyBytes fs (decodeFields p fs) = slice p next (stop - next) := by
  induction fs generalizing next with
  | nil =>
    obtain rfl := tiles
    rw [Nat.sub_self]
    rfl
  | cons f fs ih =>
    have ordered := bodyBytes_length tiles.2 (decodeFields p fs)
    obtain ⟨rfl, rest⟩ := tiles
    have width : stop - f.offset = f.type.size + (stop - (f.offset + f.type.size)) := by omega
    rw [decodeFields, bodyBytes, ih rest, width, slice_append, valueBytes_decodeValue (by omega)]

theorem tile_offset {f : Field} (member : f ∈ fs) : next ≤ f.offset := by
  induction fs generalizing next with
  | nil => cases member
  | cons first fs ih =>
    obtain ⟨rfl, rest⟩ := tiles
    rcases List.mem_cons.mp member with rfl | later
    · exact Nat.le_refl _
    · have after := ih rest later
      omega

/-- Every byte belongs to exactly one field. -/
theorem field_unique {i : Nat} (after : next ≤ i) (before : i < stop) :
    ∃! j : Nat, ∃ f : Field, fs[j]? = some f ∧ f.Holds i := by
  induction fs generalizing next with
  | nil =>
    obtain rfl := tiles
    omega
  | cons first fs ih =>
    obtain ⟨rfl, rest⟩ := tiles
    by_cases here : i < first.offset + first.type.size
    · refine ⟨0, ⟨first, rfl, after, here⟩, ?_⟩
      rintro j ⟨f, found, holds, -⟩
      cases j with
      | zero => rfl
      | succ j =>
        have later := tile_offset rest (List.mem_of_getElem? found)
        omega
    · obtain ⟨j, ⟨f, found, holds⟩, only⟩ := ih rest (Nat.le_of_not_lt here)
      refine ⟨j + 1, ⟨f, found, holds⟩, ?_⟩
      rintro k ⟨g, found', holds'⟩
      cases k with
      | zero =>
        obtain rfl := Option.some.inj found'
        exact absurd holds'.2 here
      | succ k => exact congrArg (· + 1) (only k ⟨g, found', holds'⟩)

end Tiled

end Itch
