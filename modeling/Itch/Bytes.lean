import Itch.Lib.BigEndian

namespace Itch

/-- The `width` bytes of `buf` that start at offset `p`. -/
def slice (buf : List UInt8) (p width : Nat) : List UInt8 := (buf.drop p).take width

def loadBe16 (buf : List UInt8) (p : Nat) : UInt16 := UInt16.ofNat (BigEndian.decode (slice buf p 2))

def loadBe32 (buf : List UInt8) (p : Nat) : UInt32 := UInt32.ofNat (BigEndian.decode (slice buf p 4))

def loadBe64 (buf : List UInt8) (p : Nat) : UInt64 := UInt64.ofNat (BigEndian.decode (slice buf p 8))

/-- The 48-bit field at `p`, read as the eight bytes that end with it and masked. -/
def loadBe48Overread (buf : List UInt8) (p : Nat) : UInt64 := loadBe64 buf (p - 2) &&& 0x0000FFFFFFFFFFFF

theorem slice_length {buf : List UInt8} {p width : Nat} (inside : p + width ≤ buf.length) :
    (slice buf p width).length = width := by
  simp only [slice, List.length_take, List.length_drop]
  omega

theorem slice_length_le (buf : List UInt8) (p width : Nat) : (slice buf p width).length ≤ width :=
  List.length_take_le _ _

theorem decode_slice_lt (buf : List UInt8) (p width : Nat) :
    BigEndian.decode (slice buf p width) < 256 ^ width :=
  (BigEndian.decode_lt _).trans_le (Nat.pow_le_pow_right (by norm_num) (slice_length_le buf p width))

theorem loadBe16_toNat (buf : List UInt8) (p : Nat) :
    (loadBe16 buf p).toNat = BigEndian.decode (slice buf p 2) := by
  rw [loadBe16, UInt16.toNat_ofNat', Nat.mod_eq_of_lt ((decode_slice_lt buf p 2).trans_eq (by norm_num))]

theorem loadBe32_toNat (buf : List UInt8) (p : Nat) :
    (loadBe32 buf p).toNat = BigEndian.decode (slice buf p 4) := by
  rw [loadBe32, UInt32.toNat_ofNat', Nat.mod_eq_of_lt ((decode_slice_lt buf p 4).trans_eq (by norm_num))]

theorem loadBe64_toNat (buf : List UInt8) (p : Nat) :
    (loadBe64 buf p).toNat = BigEndian.decode (slice buf p 8) := by
  rw [loadBe64, UInt64.toNat_ofNat', Nat.mod_eq_of_lt ((decode_slice_lt buf p 8).trans_eq (by norm_num))]

/-- A slice that starts after the first part of a buffer is a slice of the rest. -/
theorem slice_append_right (front back : List UInt8) (p width : Nat) :
    slice (front ++ back) (front.length + p) width = slice back p width := by
  rw [slice, slice, List.drop_append, List.drop_eq_nil_of_le (by omega), List.nil_append]
  congr 2
  omega

/-- A slice that ends inside the first part of a buffer does not see the rest. -/
theorem slice_append_left {front : List UInt8} {p width : Nat} (back : List UInt8)
    (inside : p + width ≤ front.length) : slice (front ++ back) p width = slice front p width := by
  rw [slice, slice, List.drop_append_of_le_length (by omega), List.take_append_of_le_length]
  rw [List.length_drop]
  omega

/-- A slice that starts after the first part, by its offset in the whole. -/
theorem slice_skip {front : List UInt8} {p : Nat} (after : front.length ≤ p) (back : List UInt8) (width : Nat) :
    slice (front ++ back) p width = slice back (p - front.length) width := by
  have offset : p = front.length + (p - front.length) := by omega
  rw [offset, slice_append_right, Nat.add_sub_cancel_left]

/-- A slice after a first part of known length. -/
theorem slice_past {front : List UInt8} {w p : Nat} (length : front.length = w) (after : w ≤ p) (back : List UInt8)
    (width : Nat) : slice (front ++ back) p width = slice back (p - w) width := by
  subst length
  exact slice_skip after back width

theorem slice_front {front : List UInt8} {width : Nat} (length : front.length = width) (back : List UInt8) :
    slice (front ++ back) 0 width = front := by
  rw [← length, slice, List.drop_zero, List.take_left]

theorem slice_whole (buf : List UInt8) : slice buf 0 buf.length = buf := by
  rw [slice, List.drop_zero, List.take_length]

theorem slice_append (buf : List UInt8) (p m n : Nat) : slice buf p (m + n) = slice buf p m ++ slice buf (p + m) n := by
  rw [slice, slice, slice, List.take_add, List.drop_drop]

theorem slice_slice (buf : List UInt8) (start : Nat) {i width len : Nat} (inside : i + width ≤ len) :
    slice (slice buf start len) i width = slice buf (start + i) width := by
  rw [slice, slice, slice, List.drop_take, List.take_take, List.drop_drop, Nat.min_eq_left (by omega)]

theorem loadBe16_slice (buf : List UInt8) (start : Nat) {i len : Nat} (inside : i + 2 ≤ len) :
    loadBe16 (slice buf start len) i = loadBe16 buf (start + i) := by
  rw [loadBe16, loadBe16, slice_slice buf start inside]

section Encoded

variable {buf : List UInt8} {p : Nat}

theorem loadBe16_of_slice {v : UInt16} (here : slice buf p 2 = BigEndian.encode 2 v.toNat) : loadBe16 buf p = v := by
  rw [loadBe16, here, BigEndian.decode_encode_of_lt v.toNat_lt, UInt16.ofNat_toNat]

theorem loadBe32_of_slice {v : UInt32} (here : slice buf p 4 = BigEndian.encode 4 v.toNat) : loadBe32 buf p = v := by
  rw [loadBe32, here, BigEndian.decode_encode_of_lt v.toNat_lt, UInt32.ofNat_toNat]

theorem loadBe64_of_slice {v : UInt64} (here : slice buf p 8 = BigEndian.encode 8 v.toNat) : loadBe64 buf p = v := by
  rw [loadBe64, here, BigEndian.decode_encode_of_lt v.toNat_lt, UInt64.ofNat_toNat]

end Encoded

end Itch
