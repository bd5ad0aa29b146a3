import Mathlib.Data.Nat.Log
import Mathlib.Tactic.Ring
import Mathlib.Tactic.NormNum

namespace BigEndian

/-- The number written by the bytes, most significant first. -/
def decode : List UInt8 → Nat
  | [] => 0
  | b :: bs => b.toNat * 256 ^ bs.length + decode bs

/-- The `w` bytes of `n`, most significant first. Higher bits are dropped. -/
def encode : Nat → Nat → List UInt8
  | 0, _ => []
  | w + 1, n => UInt8.ofNat (n / 256 ^ w % 256) :: encode w n

@[simp] theorem encode_length (w n : Nat) : (encode w n).length = w := by
  induction w with
  | zero => rfl
  | succ w ih => simp only [encode, List.length_cons, ih]

theorem decode_lt (bs : List UInt8) : decode bs < 256 ^ bs.length := by
  induction bs with
  | nil => decide
  | cons b bs ih =>
    have byte : b.toNat < 256 := b.toNat_lt
    have head : (b.toNat + 1) * 256 ^ bs.length ≤ 256 * 256 ^ bs.length := Nat.mul_le_mul_right _ byte
    rw [decode, List.length_cons, pow_succ', Nat.add_one_mul] at *
    omega

theorem decode_encode (w n : Nat) : decode (encode w n) = n % 256 ^ w := by
  induction w with
  | zero => simp only [encode, decode, pow_zero, Nat.mod_one]
  | succ w ih =>
    have byte : n / 256 ^ w % 256 % 2 ^ 8 = n / 256 ^ w % 256 :=
      Nat.mod_eq_of_lt (Nat.mod_lt _ (by norm_num))
    rw [encode, decode, ih, encode_length, UInt8.toNat_ofNat', byte, pow_succ, Nat.mod_mul]
    ring

theorem decode_encode_of_lt {w n : Nat} (bound : n < 256 ^ w) : decode (encode w n) = n := by
  rw [decode_encode, Nat.mod_eq_of_lt bound]

theorem encode_add_mul (w a n : Nat) : encode w (a * 256 ^ w + n) = encode w n := by
  induction w generalizing a with
  | zero => rfl
  | succ w ih =>
    have tail : a * 256 ^ (w + 1) + n = a * 256 * 256 ^ w + n := by ring
    have positive : 0 < 256 ^ w := by positivity
    have digit : (a * 256 * 256 ^ w + n) / 256 ^ w = n / 256 ^ w + a * 256 := by
      rw [add_comm, Nat.add_mul_div_right _ _ positive]
    rw [encode, encode, tail, ih, digit, Nat.add_mul_mod_self_right]

theorem encode_decode (bs : List UInt8) : encode bs.length (decode bs) = bs := by
  induction bs with
  | nil => rfl
  | cons b bs ih =>
    have byte : b.toNat < 256 := b.toNat_lt
    have positive : 0 < 256 ^ bs.length := by positivity
    have low := decode_lt bs
    have head : (b.toNat * 256 ^ bs.length + decode bs) / 256 ^ bs.length = b.toNat := by
      rw [mul_comm, Nat.mul_add_div positive, Nat.div_eq_of_lt low, add_zero]
    rw [List.length_cons, encode, decode, encode_add_mul, ih, head, Nat.mod_eq_of_lt byte, UInt8.ofNat_toNat]

theorem decode_append (front back : List UInt8) :
    decode (front ++ back) = decode front * 256 ^ back.length + decode back := by
  induction front with
  | nil => rw [List.nil_append, decode, Nat.zero_mul, Nat.zero_add]
  | cons b front ih =>
    rw [List.cons_append, decode, decode, ih, List.length_append, pow_add]
    ring

/-- A number written in two pieces. -/
theorem encode_append (v w n : Nat) : encode (v + w) n = encode v (n / 256 ^ w) ++ encode w n := by
  induction v with
  | zero => rw [Nat.zero_add, encode, List.nil_append]
  | succ v ih => rw [Nat.add_right_comm, encode, encode, ih, Nat.div_div_eq_div_mul, ← pow_add, Nat.add_comm w v,
      List.cons_append]

theorem encode_mod (w n : Nat) : encode w (n % 256 ^ w) = encode w n := by
  have split := encode_add_mul w (n / 256 ^ w) (n % 256 ^ w)
  rw [mul_comm, Nat.div_add_mod] at split
  exact split.symm

end BigEndian
