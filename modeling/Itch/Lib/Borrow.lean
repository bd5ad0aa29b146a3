import Mathlib.Data.Nat.ModEq
import Mathlib.Tactic.Ring

/-! Subtraction of numbers in base `b`, followed digit by digit. -/
namespace Borrow

variable {b x y n i : Nat}

def digit (b x i : Nat) : Nat := x / b ^ i % b

/-- Subtracting the lowest `i` digits of `y` from those of `x` borrows from digit `i`. -/
def Borrows (b x y i : Nat) : Prop := x % b ^ i < y % b ^ i

instance : Decidable (Borrows b x y i) := Nat.decLt _ _

theorem digit_lt (positive : 0 < b) (x i : Nat) : digit b x i < b := Nat.mod_lt _ positive

theorem low_succ (b x i : Nat) : x % b ^ (i + 1) = x % b ^ i + b ^ i * digit b x i := Nat.mod_pow_succ

theorem not_borrows_zero (b x y : Nat) : ¬ Borrows b x y 0 := by
  simp [Borrows, Nat.mod_one]

/-- A digit passes a borrow on exactly if it is the same in both numbers. -/
theorem borrows_succ (positive : 0 < b) :
    Borrows b x y (i + 1) ↔ digit b x i < digit b y i ∨ digit b x i = digit b y i ∧ Borrows b x y i := by
  have low := Nat.mod_lt x (Nat.pow_pos positive : 0 < b ^ i)
  have low' := Nat.mod_lt y (Nat.pow_pos positive : 0 < b ^ i)
  simp only [Borrows, low_succ]
  generalize x % b ^ i = u at *
  generalize y % b ^ i = v at *
  rcases Nat.lt_trichotomy (digit b x i) (digit b y i) with less | same | more
  · have gap : b ^ i * (digit b x i + 1) ≤ b ^ i * digit b y i := Nat.mul_le_mul_left _ less
    rw [Nat.mul_succ] at gap
    exact iff_of_true (by omega) (.inl less)
  · simp [same]
  · have gap : b ^ i * (digit b y i + 1) ≤ b ^ i * digit b x i := Nat.mul_le_mul_left _ more
    rw [Nat.mul_succ] at gap
    exact iff_of_false (by omega) (by omega)

/-- A number is read back from its lowest digits and the one above them. -/
theorem digit_of_low {low d : Nat} (below : low < b ^ i) (small : d < b) (here : x ≡ low + b ^ i * d [MOD b ^ (i + 1)]) :
    digit b x i = d := by
  have positive : 0 < b ^ i := Nat.lt_of_le_of_lt (Nat.zero_le _) below
  have bound : low + b ^ i * d < b ^ (i + 1) := by
    calc low + b ^ i * d < b ^ i + b ^ i * d := Nat.add_lt_add_right below _
      _ = b ^ i * (d + 1) := by ring
      _ ≤ b ^ i * b := Nat.mul_le_mul_left _ small
  calc digit b x i = x % b ^ (i + 1) / b ^ i := by rw [digit, pow_succ, Nat.mod_mul_right_div_self]
    _ = (low + b ^ i * d) / b ^ i := by rw [here, Nat.mod_eq_of_lt bound]
    _ = d := by rw [Nat.add_mul_div_left _ _ positive, Nat.div_eq_of_lt below, Nat.zero_add]

/-- What is left of the lowest digits, with one of the next digit lent where there are too few. -/
theorem lend {u v m : Nat} (left : u < m) (right : v < m) : ∃ low < m, low + v = u + m * if u < v then 1 else 0 := by
  split
  · exact ⟨u + m - v, by omega, by omega⟩
  · exact ⟨u - v, by omega, by omega⟩

/-- A digit of `x - y` is the difference of the digits and of the borrow from below, modulo the base. -/
theorem digit_difference {z : Nat} (positive : 0 < b) (sum : z + y ≡ x [MOD b ^ (i + 1)]) :
    digit b z i = (digit b x i + b - digit b y i - if Borrows b x y i then 1 else 0) % b := by
  have small := digit_lt positive y i
  obtain ⟨low, below, lowest⟩ := lend (Nat.mod_lt x (Nat.pow_pos positive : 0 < b ^ i)) (Nat.mod_lt y (Nat.pow_pos positive))
  change low + y % b ^ i = x % b ^ i + b ^ i * if Borrows b x y i then 1 else 0 at lowest
  have one : (if Borrows b x y i then 1 else 0) ≤ 1 := by
    split <;> omega
  generalize (if Borrows b x y i then 1 else 0) = c at lowest one ⊢
  refine digit_of_low below (Nat.mod_lt _ positive) (Nat.ModEq.add_right_cancel' y (sum.trans ?_))
  generalize wrapped : (digit b x i + b - digit b y i - c) % b = d
  have digits : digit b x i ≡ c + (d + digit b y i) [MOD b] := by
    calc digit b x i ≡ digit b x i + b [MOD b] := Nat.add_modEq_right.symm
      _ = c + (digit b x i + b - digit b y i - c + digit b y i) := by omega
      _ ≡ c + (d + digit b y i) [MOD b] := by
        rw [← wrapped]
        exact ((Nat.mod_modEq _ b).symm.add_right _).add_left c
  calc x ≡ x % b ^ i + b ^ i * digit b x i [MOD b ^ (i + 1)] := by
        rw [← low_succ]
        exact (Nat.mod_modEq x _).symm
    _ ≡ x % b ^ i + b ^ i * (c + (d + digit b y i)) [MOD b ^ (i + 1)] := (digits.mul_left' _).add_left _
    _ = low + b ^ i * d + (y % b ^ i + b ^ i * digit b y i) := by rw [Nat.mul_add, ← Nat.add_assoc, ← lowest]; ring
    _ ≡ low + b ^ i * d + y [MOD b ^ (i + 1)] := by
        rw [← low_succ]
        exact (Nat.mod_modEq y _).add_left _

end Borrow
