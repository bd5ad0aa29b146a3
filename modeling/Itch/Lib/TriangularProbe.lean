import Mathlib.Data.Fintype.EquivFin
import Mathlib.Data.Nat.ModEq
import Mathlib.Data.Nat.Prime.Basic
import Mathlib.Tactic.Ring

/-! Probing a power-of-two table with steps of one, two, three and so on. -/
namespace TriangularProbe

/-- The sum of the first `j` steps. -/
def offset : Nat → Nat
  | 0 => 0
  | j + 1 => offset j + (j + 1)

theorem two_mul_offset (j : Nat) : 2 * offset j = j * (j + 1) := by
  induction j with
  | zero => rfl
  | succ j ih => rw [offset, Nat.mul_add, ih]; ring

/-- The group visited at step `j` from `home`. -/
def visit (k home j : Nat) : Nat := (home + offset j) % 2 ^ k

theorem visit_lt (k home j : Nat) : visit k home j < 2 ^ k := Nat.mod_lt _ (Nat.two_pow_pos k)

theorem visit_zero {k home : Nat} (inside : home < 2 ^ k) : visit k home 0 = home := Nat.mod_eq_of_lt inside

/-- The code's update of the group index, a mask instead of a remainder. -/
theorem visit_succ (k home j : Nat) : (visit k home j + (j + 1)) &&& (2 ^ k - 1) = visit k home (j + 1) := by
  rw [Nat.and_two_pow_sub_one_eq_mod, visit, Nat.mod_add_mod, visit, offset, Nat.add_assoc]

theorem two_mul_offset_add (i d : Nat) : 2 * offset (i + d) = 2 * offset i + d * (2 * i + d + 1) := by
  rw [two_mul_offset, two_mul_offset]
  ring

/-- Two different steps below the table size never meet: of the two factors of the
difference one is odd, so the other would have to be a multiple of twice the size. -/
theorem visit_injective {k home i d : Nat} (inside : i + d < 2 ^ k) (same : visit k home (i + d) = visit k home i) :
    d = 0 := by
  by_contra nonzero
  have positive : 0 < d := Nat.pos_of_ne_zero nonzero
  have twice : 2 ^ (k + 1) = 2 * 2 ^ k := pow_succ' 2 k
  have growth := two_mul_offset_add i d
  have congruent : offset i ≡ offset (i + d) [MOD 2 ^ k] := Nat.ModEq.add_left_cancel' home same.symm
  have monotone : offset i ≤ offset (i + d) := by omega
  obtain ⟨q, quotient⟩ := (Nat.modEq_iff_dvd' monotone).mp congruent
  have product : 2 ^ (k + 1) ∣ d * (2 * i + d + 1) := ⟨q, by rw [twice, Nat.mul_assoc, ← quotient]; omega⟩
  have factors : 2 ^ (k + 1) ∣ d ∨ 2 ^ (k + 1) ∣ 2 * i + d + 1 := by
    rcases Nat.even_or_odd d with even | odd
    · have other : Odd (2 * i + d + 1) := ((even_two_mul i).add even).add_one
      exact .inl ((other.coprime_two_left.pow_left _).dvd_of_dvd_mul_right product)
    · exact .inr ((odd.coprime_two_left.pow_left _).dvd_of_dvd_mul_left product)
  rcases factors with divides | divides
  · have large := Nat.le_of_dvd positive divides
    omega
  · have large := Nat.le_of_dvd (Nat.succ_pos _) divides
    omega

/-- Every group is visited within as many steps as there are groups. -/
theorem visit_surjective {k g : Nat} (home : Nat) (inside : g < 2 ^ k) : ∃ j < 2 ^ k, visit k home j = g := by
  let step : Fin (2 ^ k) → Fin (2 ^ k) := fun j => ⟨visit k home j, visit_lt k home j⟩
  have injective : Function.Injective step := by
    intro i j same
    have meet : visit k home i = visit k home j := congrArg Fin.val same
    rcases Nat.le_total i j with before | after
    · obtain ⟨d, shift⟩ := Nat.exists_eq_add_of_le before
      have bound : i + d < 2 ^ k := shift ▸ j.isLt
      have zero := visit_injective bound (shift ▸ meet.symm)
      exact Fin.ext (by omega)
    · obtain ⟨d, shift⟩ := Nat.exists_eq_add_of_le after
      have bound : j + d < 2 ^ k := shift ▸ i.isLt
      have zero := visit_injective bound (shift ▸ meet)
      exact Fin.ext (by omega)
  obtain ⟨j, arrives⟩ := Finite.surjective_of_injective injective ⟨g, inside⟩
  exact ⟨j, j.isLt, congrArg Fin.val arrives⟩

end TriangularProbe
