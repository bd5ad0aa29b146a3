import Itch.Lib.BigEndian

/-- The order in which a machine keeps the bytes of a number. -/
inductive ByteOrder where
  | little
  | big

namespace BigEndian

theorem and_of_digits {n a b c d : Nat} (low : b < 2 ^ n) (low' : d < 2 ^ n) :
    (2 ^ n * a + b) &&& (2 ^ n * c + d) = 2 ^ n * (a &&& c) + (b &&& d) := by
  have small : b &&& d < 2 ^ n := Nat.and_lt_two_pow b low'
  refine Nat.eq_of_testBit_eq fun i => ?_
  rw [Nat.testBit_and, Nat.testBit_two_pow_mul_add a low, Nat.testBit_two_pow_mul_add c low',
    Nat.testBit_two_pow_mul_add _ small]
  split <;> rw [Nat.testBit_and]

theorem decode_zipWith_and {xs ys : List UInt8} (same : xs.length = ys.length) :
    decode (xs.zipWith (· &&& ·) ys) = decode xs &&& decode ys := by
  induction xs generalizing ys with
  | nil => rw [List.zipWith_nil_left, decode, Nat.zero_and]
  | cons x xs ih =>
    cases ys with
    | nil => cases same
    | cons y ys =>
      have tails : xs.length = ys.length := Nat.succ.inj same
      have base : 256 ^ ys.length = 2 ^ (8 * ys.length) := by rw [Nat.pow_mul]
      have low := decode_lt xs
      have low' := decode_lt ys
      rw [tails, base] at low
      rw [base] at low'
      rw [List.zipWith_cons_cons, decode, decode, decode, ih tails, List.length_zipWith, tails, Nat.min_self, base,
        UInt8.toNat_and, Nat.mul_comm, Nat.mul_comm x.toNat, Nat.mul_comm y.toNat, and_of_digits low low']

theorem encode_and (w a b : Nat) : encode w (a &&& b) = (encode w a).zipWith (· &&& ·) (encode w b) := by
  have same : (encode w a).length = (encode w b).length := by rw [encode_length, encode_length]
  have whole := encode_decode ((encode w a).zipWith (· &&& ·) (encode w b))
  have base : 256 ^ w = 2 ^ (8 * w) := by rw [Nat.pow_mul]
  rw [decode_zipWith_and same, List.length_zipWith, encode_length, encode_length, Nat.min_self, decode_encode, decode_encode,
    base, ← Nat.and_mod_two_pow, ← base, encode_mod] at whole
  exact whole

theorem encode_zero (w : Nat) : encode w 0 = List.replicate w 0 := by
  induction w with
  | zero => rfl
  | succ w ih =>
    rw [encode, Nat.zero_div, ih, List.replicate_succ, Nat.zero_mod]
    rfl

theorem decode_inj {xs ys : List UInt8} (same : xs.length = ys.length) (eq : decode xs = decode ys) : xs = ys := by
  rw [← encode_decode xs, ← encode_decode ys, same, eq]

end BigEndian

namespace ByteOrder

open BigEndian

def arrange (o : ByteOrder) (bytes : List UInt8) : List UInt8 :=
  match o with
  | little => bytes.reverse
  | big => bytes

/-- The number that the bytes are in memory. -/
def load (o : ByteOrder) (bytes : List UInt8) : Nat := decode (o.arrange bytes)

/-- The number whose `w` bytes in memory are those of `n` in network order. -/
def hton (o : ByteOrder) (w n : Nat) : Nat := o.load (encode w n)

variable (o : ByteOrder) {w : Nat}

theorem arrange_length (bytes : List UInt8) : (o.arrange bytes).length = bytes.length := by
  cases o with
  | little => exact List.length_reverse
  | big => rfl

theorem load_lt (bytes : List UInt8) : o.load bytes < 256 ^ bytes.length := by
  have bound := decode_lt (o.arrange bytes)
  rwa [arrange_length] at bound

theorem load_inj {xs ys : List UInt8} (same : xs.length = ys.length) (eq : o.load xs = o.load ys) : xs = ys := by
  have arranged := decode_inj (by rw [arrange_length, arrange_length, same]) eq
  cases o with
  | little => exact List.reverse_inj.mp arranged
  | big => exact arranged

theorem load_eq (bytes : List UInt8) : o.load bytes = o.hton bytes.length (decode bytes) := by
  rw [hton, encode_decode]

theorem hton_lt (n : Nat) : o.hton w n < 256 ^ w := by
  have bound := o.load_lt (encode w n)
  rwa [encode_length] at bound

theorem hton_inj {a b : Nat} (small : a < 256 ^ w) (small' : b < 256 ^ w) : o.hton w a = o.hton w b ↔ a = b := by
  refine ⟨fun same => ?_, fun same => by rw [same]⟩
  have bytes : encode w a = encode w b := o.load_inj (by rw [encode_length, encode_length]) same
  rw [← decode_encode_of_lt small, bytes, decode_encode_of_lt small']

theorem hton_and (a b : Nat) : o.hton w (a &&& b) = o.hton w a &&& o.hton w b := by
  have same : (encode w a).length = (encode w b).length := by rw [encode_length, encode_length]
  have lengths : (o.arrange (encode w a)).length = (o.arrange (encode w b)).length := by
    rw [arrange_length, arrange_length, same]
  rw [hton, load, encode_and, hton, load, hton, load, ← decode_zipWith_and lengths]
  cases o with
  | little => exact congrArg decode (List.reverse_zipWith same)
  | big => rfl

theorem hton_zero : o.hton w 0 = 0 := by
  have palindrome : o.arrange (encode w 0) = encode w 0 := by
    rw [encode_zero]
    cases o with
    | little => exact List.reverse_replicate ..
    | big => rfl
  rw [hton, load, palindrome, decode_encode, Nat.zero_mod]

end ByteOrder
