import Mathlib.Data.Nat.ModEq

/-! Distances and slots of free-running counters that wrap at `M`. -/
namespace Wrap

/-- The distance from `b` up to `a`, modulo `M`. -/
def distance (M a b : Nat) : Nat := (a + M - b) % M

theorem distance_add {M d : Nat} (small : d < M) (x : Nat) : distance M ((x + d) % M) (x % M) = d := by
  have positive : 0 < M := Nat.zero_lt_of_lt small
  have base := Nat.mod_lt x positive
  have split : (x + d) % M = (x % M + d) % M := (Nat.mod_add_mod x M d).symm
  rw [distance, split]
  by_cases inside : x % M + d < M
  · rw [Nat.mod_eq_of_lt inside]
    have whole : x % M + d + M - x % M = d + M := by omega
    rw [whole, Nat.add_mod_right, Nat.mod_eq_of_lt small]
  · have wrapped : (x % M + d) % M = x % M + d - M := by
      rw [Nat.mod_eq_sub_mod (Nat.le_of_not_lt inside), Nat.mod_eq_of_lt (by omega)]
    have whole : x % M + d - M + M - x % M = d := by omega
    rw [wrapped, whole, Nat.mod_eq_of_lt small]

theorem distance_of_le {M a b : Nat} (ordered : b ≤ a) (small : a - b < M) (x : Nat) :
    distance M ((x + a) % M) ((x + b) % M) = a - b := by
  have shifted : x + a = x + b + (a - b) := by omega
  rw [shifted, distance_add small]

theorem mod_inj_of_close {M a b : Nat} (x : Nat) (ordered : b ≤ a) (small : a - b < M)
    (same : (x + a) % M = (x + b) % M) : a = b := by
  have zero := distance_of_le ordered small x
  rw [same, distance] at zero
  rw [Nat.add_sub_cancel_left, Nat.mod_self] at zero
  omega

/-- A power-of-two mask of a counter that wraps at a larger power is the counter modulo the size. -/
theorem mask_mod {k w : Nat} (within : k ≤ w) (x : Nat) : x % 2 ^ w &&& 2 ^ k - 1 = x % 2 ^ k := by
  rw [Nat.and_two_pow_sub_one_eq_mod, Nat.mod_mod_of_dvd _ (Nat.pow_dvd_pow 2 within)]

end Wrap
