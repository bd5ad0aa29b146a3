import Mathlib.Data.List.Sort
import Mathlib.Data.List.GetD

/-! Ranks: the `k`-th smallest value of a list, against how many values a lower set holds. -/
namespace Ranks

variable {α : Type*} [LinearOrder α] {p : α → Bool} {xs ys : List α} {k : Nat}

/-- The values in ascending order. -/
def ascending (xs : List α) : List α := xs.mergeSort fun a b => decide (a ≤ b)

theorem ascending_perm (xs : List α) : (ascending xs).Perm xs := List.mergeSort_perm xs _

theorem ascending_length (xs : List α) : (ascending xs).length = xs.length := (ascending_perm xs).length_eq

theorem ascending_sorted (xs : List α) : (ascending xs).Pairwise (· ≤ ·) := by
  have sorted : (ascending xs).Pairwise fun a b => decide (a ≤ b) = true :=
    List.pairwise_mergeSort (fun a b c => by simpa only [decide_eq_true_eq] using le_trans)
      (fun a b => by simpa only [Bool.or_eq_true, decide_eq_true_eq] using le_total a b) xs
  exact sorted.imp of_decide_eq_true

/-- The `k`-th smallest value, counted from 1. -/
def kth [Inhabited α] (xs : List α) (k : Nat) : α := (ascending xs).getD (k - 1) default

/-- A lower set holds the first values of a sorted list. -/
theorem lt_countP_iff (lower : ∀ a b, a ≤ b → p b → p a) (sorted : xs.Pairwise (· ≤ ·)) {i : Nat} (inside : i < xs.length) :
    i < xs.countP p ↔ p xs[i] := by
  induction xs generalizing i with
  | nil => cases inside
  | cons a xs ih =>
    obtain ⟨first, rest⟩ := List.pairwise_cons.mp sorted
    by_cases low : p a
    · rw [List.countP_cons_of_pos low]
      cases i with
      | zero => exact ⟨fun _ => low, fun _ => Nat.succ_pos _⟩
      | succ i => exact Nat.succ_lt_succ_iff.trans (ih rest (Nat.succ_lt_succ_iff.mp inside))
    · have none : (a :: xs).countP p = 0 := by
        rw [List.countP_eq_zero]
        intro b member here
        rcases List.mem_cons.mp member with rfl | later
        · exact low here
        · exact low (lower a b (first b later) here)
      have high : ¬ p (a :: xs)[i] := List.countP_eq_zero.mp none _ (List.getElem_mem inside)
      rw [none]
      exact ⟨fun absurd_ => absurd absurd_ (Nat.not_lt_zero i), fun here => absurd here high⟩

section Kth

variable (positive : 1 ≤ k) (inside : k ≤ xs.length)
include positive inside

theorem ascending_inside : k - 1 < (ascending xs).length := by
  rw [ascending_length]
  omega

variable [Inhabited α]

theorem kth_eq : kth xs k = (ascending xs).get ⟨k - 1, ascending_inside positive inside⟩ := List.getD_eq_getElem _ _ _

theorem kth_mem : kth xs k ∈ xs := by
  rw [kth_eq positive inside]
  exact (ascending_perm xs).mem_iff.mp (List.get_mem _ _)

/-- A lower set holds at least `k` of the values if and only if it holds the `k`-th smallest. -/
theorem le_countP_iff (lower : ∀ a b, a ≤ b → p b → p a) : k ≤ xs.countP p ↔ p (kth xs k) := by
  have before := ascending_inside positive inside
  have rank := lt_countP_iff lower (ascending_sorted xs) before
  rw [kth_eq positive inside, List.get_eq_getElem, ← rank, (ascending_perm xs).countP_eq]
  omega

omit inside in
theorem kth_le_kth {k' : Nat} (le : k ≤ k') (inside : k' ≤ xs.length) : kth xs k ≤ kth xs k' := by
  have before := ascending_inside (positive.trans le) inside
  rw [kth_eq positive (le.trans inside), kth_eq (positive.trans le) inside]
  rcases Nat.lt_or_ge (k - 1) (k' - 1) with less | same
  · exact List.pairwise_iff_getElem.mp (ascending_sorted xs) _ _ _ before less
  · have here : k' - 1 = k - 1 := by omega
    simp only [here, le_refl]

end Kth

end Ranks
