import Mathlib.Algebra.Group.Nat.Defs
import Mathlib.Data.List.Basic

namespace Itch

/-- The key at `i`. Past the buffer it is never used for a result. -/
def keyAt (keys : List UInt32) (i : Nat) : UInt32 := keys.getD i 0

def kLevelSearchPad : Nat := 8

/-- The first `n` keys are ascending. -/
def Ascending (keys : List UInt32) (n : Nat) : Prop := ∀ i j, i ≤ j → j < n → keyAt keys i ≤ keyAt keys j

/-- `r` is the first of the first `n` positions whose key is not below `key`. -/
structure IsLowerBound (keys : List UInt32) (n : Nat) (key : UInt32) (r : Nat) : Prop where
  le : r ≤ n
  below : ∀ i < r, keyAt keys i < key
  notBelow : ∀ i, r ≤ i → i < n → ¬ keyAt keys i < key

/-- A level search that finds the lower bound, whatever lies in the buffer past `n`. -/
structure LevelSearch where
  lowerBound : List UInt32 → Nat → UInt32 → Nat
  finds : ∀ keys n key r, IsLowerBound keys n key r → lowerBound keys n key = r

namespace IsLowerBound

variable {keys : List UInt32} {n r : Nat} {key : UInt32}

theorem lt_iff (bound : IsLowerBound keys n key r) {i : Nat} (inside : i < n) : keyAt keys i < key ↔ i < r := by
  constructor
  · intro less
    by_contra after
    exact bound.notBelow i (by omega) inside less
  · exact bound.below i

/-- The lower bound within a shorter prefix that still reaches it. -/
theorem shorten {i : Nat} (bound : IsLowerBound keys n key r) (reaches : r ≤ i) (within : i ≤ n) :
    IsLowerBound keys i key r :=
  ⟨reaches, bound.below, fun j after inside => bound.notBelow j after (by omega)⟩

end IsLowerBound

theorem Ascending.exists_lowerBound {keys : List UInt32} {n : Nat} (sorted : Ascending keys n) (key : UInt32) :
    ∃ r, IsLowerBound keys n key r := by
  induction n with
  | zero => exact ⟨0, Nat.le_refl 0, fun i => by omega, fun i => by omega⟩
  | succ n ih =>
    obtain ⟨r, le, below, notBelow⟩ := ih fun i j before inside => sorted i j before (by omega)
    by_cases last : keyAt keys n < key
    · refine ⟨n + 1, Nat.le_refl _, ?_, fun i => by omega⟩
      intro i inside
      exact UInt32.lt_of_le_of_lt (sorted i n (by omega) (by omega)) last
    · refine ⟨r, by omega, below, ?_⟩
      intro i after inside
      rcases Nat.lt_or_eq_of_le (Nat.le_of_lt_succ inside) with before | rfl
      · exact notBelow i after before
      · exact last

/-- Branchless binary search over `keys[base .. base + n)`. -/
def branchlessFrom (keys : List UInt32) (key : UInt32) (base n : Nat) : Nat :=
  if 1 < n then
    branchlessFrom keys key (if keyAt keys (base + n / 2) < key then base + n / 2 else base) (n - n / 2)
  else base + if n = 1 ∧ keyAt keys base < key then 1 else 0
termination_by n

def lowerBoundBranchless (keys : List UInt32) (n : Nat) (key : UInt32) : Nat := branchlessFrom keys key 0 n

theorem branchlessFrom_eq {keys : List UInt32} {N r : Nat} {key : UInt32} (bound : IsLowerBound keys N key r)
    (base n : Nat) (low : base ≤ r) (high : r ≤ base + n) (inside : base + n ≤ N) :
    branchlessFrom keys key base n = r := by
  induction base, n using branchlessFrom.induct keys key with
  | case1 base n more ih =>
    rw [branchlessFrom, if_pos more]
    have middle := @IsLowerBound.lt_iff _ _ _ _ bound (base + n / 2) (by omega)
    split at ih <;> rename_i less
    · rw [if_pos less]
      exact ih (by have := middle.mp less; omega) (by omega) (by omega)
    · rw [if_neg less]
      have before := mt middle.mpr less
      exact ih low (by omega) (by omega)
  | case2 base n done =>
    rw [branchlessFrom, if_neg done]
    by_cases single : n = 1
    · have only := @IsLowerBound.lt_iff _ _ _ _ bound base (by omega)
      by_cases less : keyAt keys base < key
      · have after := only.mp less
        simp [single, less]
        omega
      · have before := mt only.mpr less
        simp [less]
        omega
    · simp [single]
      omega

theorem lowerBoundBranchless_eq {keys : List UInt32} {n r : Nat} {key : UInt32} (bound : IsLowerBound keys n key r) :
    lowerBoundBranchless keys n key = r :=
  branchlessFrom_eq bound 0 n (Nat.zero_le _) (by have := bound.le; omega) (by omega)

namespace Scalar

/-- The scan down from `i` past keys not below `key`, as far as `stop`. -/
def scanBack (keys : List UInt32) (key : UInt32) (stop : Nat) : Nat → Nat
  | 0 => 0
  | i + 1 => if stop < i + 1 ∧ key ≤ keyAt keys i then scanBack keys key stop i else i + 1

def lowerBoundFromBack (chunks : Nat) (keys : List UInt32) (n : Nat) (key : UInt32) : Nat :=
  let linear := chunks * kLevelSearchPad % 2 ^ 32
  let stop := if linear < n then n - linear else 0
  let i := scanBack keys key stop n
  if stop < i ∨ i = 0 then i else lowerBoundBranchless keys i key

/-- The scan stops at the lower bound, or at `stop` above it. -/
theorem scanBack_spec {keys : List UInt32} {N r : Nat} {key : UInt32} (bound : IsLowerBound keys N key r) (stop i : Nat)
    (reached : r ≤ i) (inside : i ≤ N) :
    r ≤ scanBack keys key stop i ∧ scanBack keys key stop i ≤ i ∧
      (stop < scanBack keys key stop i → scanBack keys key stop i = r) := by
  induction i with
  | zero => simp only [scanBack]; omega
  | succ i ih =>
    have here := @IsLowerBound.lt_iff _ _ _ _ bound i (by omega)
    rw [scanBack]
    split
    · rename_i down
      have before : ¬ i < r := fun less => absurd (here.mpr less) (UInt32.not_lt.mpr down.2)
      obtain ⟨low, high, exact⟩ := ih (by omega) (by omega)
      exact ⟨low, by omega, exact⟩
    · rename_i stopped
      refine ⟨reached, Nat.le_refl _, fun far => ?_⟩
      by_contra more
      have less : ¬ i < r := by omega
      exact stopped ⟨far, UInt32.not_lt.mp (mt here.mp less)⟩

/-- Wherever the scan has to stop, the binary search finds the rest. -/
theorem scanBack_search {keys : List UInt32} {n r : Nat} {key : UInt32} (bound : IsLowerBound keys n key r) (stop : Nat) :
    (if stop < scanBack keys key stop n ∨ scanBack keys key stop n = 0 then scanBack keys key stop n
      else lowerBoundBranchless keys (scanBack keys key stop n) key) = r := by
  obtain ⟨low, high, exact⟩ := scanBack_spec bound stop n bound.le (Nat.le_refl n)
  split
  · rename_i done
    rcases done with above | zero
    · exact exact above
    · omega
  · exact lowerBoundBranchless_eq (bound.shorten low high)

theorem lowerBoundFromBack_eq (chunks : Nat) {keys : List UInt32} {n r : Nat} {key : UInt32}
    (bound : IsLowerBound keys n key r) : lowerBoundFromBack chunks keys n key = r :=
  scanBack_search bound _

end Scalar

end Itch
