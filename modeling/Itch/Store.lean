import Itch.Bytes

namespace Itch

/-- `out` with `bytes` written from `p` on. -/
def store (out : List UInt8) (p : Nat) (bytes : List UInt8) : List UInt8 :=
  out.take p ++ bytes ++ out.drop (p + bytes.length)

def storeBe16 (out : List UInt8) (p : Nat) (v : UInt16) : List UInt8 := store out p (BigEndian.encode 2 v.toNat)

def storeBe32 (out : List UInt8) (p : Nat) (v : UInt32) : List UInt8 := store out p (BigEndian.encode 4 v.toNat)

def storeBe64 (out : List UInt8) (p : Nat) (v : UInt64) : List UInt8 := store out p (BigEndian.encode 8 v.toNat)

/-- The low 48 bits of `v`, written in two pieces. -/
def storeBe48 (out : List UInt8) (p : Nat) (v : UInt64) : List UInt8 :=
  storeBe32 (storeBe16 out p (v >>> 32).toUInt16) (p + 2) v.toUInt32

theorem store_nil (out : List UInt8) (p : Nat) : store out p [] = out := by
  rw [store, List.append_nil, List.length_nil, Nat.add_zero, List.take_append_drop]

theorem store_zero (out bytes : List UInt8) : store out 0 bytes = bytes ++ out.drop bytes.length := by
  rw [store, List.take_zero, List.nil_append, Nat.zero_add]

section Inside

variable {out : List UInt8} {p : Nat} (inside : p ≤ out.length)
include inside

theorem store_length (bytes : List UInt8) : p + bytes.length ≤ (store out p bytes).length := by
  rw [store, List.length_append, List.length_append, List.length_take_of_le inside]
  omega

/-- A write that starts where another ended makes one write of both. -/
theorem store_next {front : List UInt8} {q : Nat} (next : p + front.length = q) (back : List UInt8) :
    store (store out p front) q back = store out p (front ++ back) := by
  subst next
  have here : (out.take p ++ front).length = p + front.length := by
    rw [List.length_append, List.length_take_of_le inside]
  have beyond : p + front.length + back.length = (out.take p ++ front).length + back.length := by rw [here]
  rw [store, store, store, List.take_append_of_le_length here.ge, List.take_of_length_le here.le, beyond, List.drop_append,
    List.drop_eq_nil_of_le (Nat.le_add_right _ _), Nat.add_sub_cancel_left, List.nil_append, List.drop_drop,
    List.length_append, List.append_assoc (out.take p), Nat.add_assoc]

theorem storeBe48_eq (v : UInt64) : storeBe48 out p v = store out p (BigEndian.encode 6 v.toNat) := by
  have high : (v >>> 32).toUInt16.toNat = v.toNat / 256 ^ 4 % 256 ^ 2 := by
    simp [Nat.shiftRight_eq_div_pow]
  have low : v.toUInt32.toNat = v.toNat % 256 ^ 4 := by simp
  rw [storeBe48, storeBe32, storeBe16, high, low, BigEndian.encode_mod, BigEndian.encode_mod,
    store_next inside (by rw [BigEndian.encode_length]), ← BigEndian.encode_append]

end Inside

/-- The masked over-read is the number in the six bytes of the field. -/
theorem loadBe48Overread_toNat {buf : List UInt8} {p : Nat} (before : 2 ≤ p) (inside : p + 6 ≤ buf.length) :
    (loadBe48Overread buf p).toNat = BigEndian.decode (slice buf p 6) := by
  have start : p - 2 + 2 = p := by omega
  have low := decode_slice_lt buf p 6
  rw [loadBe48Overread, UInt64.toNat_and, loadBe64_toNat, slice_append buf (p - 2) 2 6, start, BigEndian.decode_append,
    slice_length inside]
  have mask : (0x0000FFFFFFFFFFFF : UInt64).toNat = 2 ^ 48 - 1 := rfl
  rw [mask, Nat.and_two_pow_sub_one_eq_mod]
  omega

end Itch
