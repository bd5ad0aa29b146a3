import Mathlib.Data.Nat.Bitwise

/-! Walking the set bits of a 64-bit word from the lowest up. -/
namespace BitScan

/-- The number of trailing zeros, 64 for a zero word. -/
def countrZero (bits : Nat) : Nat := ((List.range 64).find? bits.testBit).getD 64

def clearLowest (bits : Nat) : Nat := bits &&& (bits - 1)

/-- The first `n` set bits, lowest first. -/
def scanFrom : Nat → Nat → List Nat
  | 0, _ => []
  | n + 1, bits => if bits = 0 then [] else countrZero bits :: scanFrom n (clearLowest bits)

/-- A word has at most 64 set bits. -/
def scan (bits : Nat) : List Nat := scanFrom 64 bits

theorem testBit_pred {bits z : Nat} (bit : bits.testBit z) (low : ∀ j < z, ¬ bits.testBit j) (i : Nat) :
    (bits - 1).testBit i = (decide (i < z) || (bits.testBit i && decide (i ≠ z))) := by
  induction z generalizing bits i with
  | zero =>
    have odd : bits % 2 = 1 := by simpa [Nat.testBit_zero] using bit
    have even : (bits - 1) % 2 = 0 := by omega
    have half : (bits - 1) / 2 = bits / 2 := by omega
    cases i with
    | zero => simp [Nat.testBit_zero, even]
    | succ i => simp [Nat.testBit_succ, half]
  | succ z ih =>
    have even : bits % 2 = 0 := by simpa [Nat.testBit_zero] using low 0 (Nat.succ_pos z)
    rw [Nat.testBit_succ] at bit
    have positive : bits / 2 ≠ 0 := by
      rintro zero
      rw [zero, Nat.zero_testBit] at bit
      exact absurd bit (by decide)
    have half : (bits - 1) / 2 = bits / 2 - 1 := by omega
    have odd : (bits - 1) % 2 = 1 := by omega
    cases i with
    | zero => simp [Nat.testBit_zero, odd]
    | succ i =>
      have below : ∀ j < z, ¬ (bits / 2).testBit j := fun j small => by
        rw [← Nat.testBit_succ]
        exact low (j + 1) (by omega)
      rw [Nat.testBit_succ, half, ih bit below i, Nat.testBit_succ]
      simp

theorem testBit_clearLowest {bits z : Nat} (bit : bits.testBit z) (low : ∀ j < z, ¬ bits.testBit j) (i : Nat) :
    (clearLowest bits).testBit i ↔ bits.testBit i ∧ i ≠ z := by
  rw [clearLowest, Nat.testBit_and, testBit_pred bit low]
  by_cases below : i < z
  · have clear := low i below
    simp [clear]
  · simp [below]

theorem countrZero_spec {bits : Nat} (small : bits < 2 ^ 64) (nonzero : bits ≠ 0) :
    countrZero bits < 64 ∧ bits.testBit (countrZero bits) ∧ ∀ j < countrZero bits, ¬ bits.testBit j := by
  obtain ⟨i, bit⟩ := Nat.exists_testBit_of_ne_zero nonzero
  have inside : i < 64 := by
    by_contra far
    have above : bits < 2 ^ i := Nat.lt_of_lt_of_le small (Nat.pow_le_pow_right (by decide) (by omega))
    rw [Nat.testBit_lt_two_pow above] at bit
    exact absurd bit (by decide)
  cases found : (List.range 64).find? bits.testBit with
  | none =>
    have missing := List.find?_eq_none.mp found i (List.mem_range.mpr inside)
    exact absurd bit missing
  | some z =>
    rw [countrZero, found, Option.getD_some]
    obtain ⟨bit, member, low⟩ := List.find?_range_eq_some.mp found
    exact ⟨List.mem_range.mp member, bit, fun j below => by simpa using low j below⟩

theorem countrZero_two_pow (k : Nat) : countrZero (2 ^ k) = min k 64 := by
  by_cases inside : k < 64
  · have found : (List.range 64).find? (2 ^ k).testBit = some k := by
      refine List.find?_range_eq_some.mpr ⟨Nat.testBit_two_pow_self, List.mem_range.mpr inside, ?_⟩
      intro j below
      simp [Nat.testBit_two_pow_of_ne (Nat.ne_of_gt below)]
    rw [countrZero, found, Option.getD_some]
    omega
  · have missed : (List.range 64).find? (2 ^ k).testBit = none := by
      refine List.find?_eq_none.mpr fun j member => ?_
      have below := List.mem_range.mp member
      have other : k ≠ j := by omega
      simp [Nat.testBit_two_pow_of_ne other]
    rw [countrZero, missed, Option.getD_none]
    omega

theorem mem_scanFrom {n bits : Nat} (small : bits < 2 ^ 64) (cleared : ∀ j, j + n < 64 → ¬ bits.testBit j) (i : Nat) :
    i ∈ scanFrom n bits ↔ bits.testBit i := by
  induction n generalizing bits with
  | zero =>
    have clear : ¬ bits.testBit i := by
      by_cases inside : i < 64
      · exact cleared i inside
      · have above : bits < 2 ^ i := Nat.lt_of_lt_of_le small (Nat.pow_le_pow_right (by decide) (by omega))
        simp [Nat.testBit_lt_two_pow above]
    simp [scanFrom, clear]
  | succ n ih =>
    rw [scanFrom]
    split
    · rename_i zero
      simp [zero]
    · rename_i nonzero
      obtain ⟨inside, bit, low⟩ := countrZero_spec small nonzero
      have smaller : clearLowest bits < 2 ^ 64 := Nat.lt_of_le_of_lt Nat.and_le_left small
      have more : ∀ j, j + n < 64 → ¬ (clearLowest bits).testBit j := by
        intro j early
        rw [testBit_clearLowest bit low]
        rintro ⟨set, other⟩
        have late : ¬ countrZero bits + (n + 1) < 64 := fun soon => cleared _ soon bit
        have beyond : ¬ j < countrZero bits := fun below => low j below set
        omega
      rw [List.mem_cons, ih smaller more, testBit_clearLowest bit low]
      constructor
      · rintro (rfl | ⟨set, _⟩)
        · exact bit
        · exact set
      · intro set
        by_cases same : i = countrZero bits
        · exact .inl same
        · exact .inr ⟨set, same⟩

theorem mem_scan {bits : Nat} (small : bits < 2 ^ 64) (i : Nat) : i ∈ scan bits ↔ bits.testBit i :=
  mem_scanFrom small (fun _ => by omega) i

theorem testBit_of_mem_scanFrom {n bits i : Nat} (small : bits < 2 ^ 64) (member : i ∈ scanFrom n bits) :
    bits.testBit i := by
  induction n generalizing bits with
  | zero => cases member
  | succ n ih =>
    rw [scanFrom] at member
    split at member
    · cases member
    · rename_i nonzero
      obtain ⟨-, bit, low⟩ := countrZero_spec small nonzero
      rcases List.mem_cons.mp member with rfl | later
      · exact bit
      · exact ((testBit_clearLowest bit low i).mp (ih (Nat.lt_of_le_of_lt Nat.and_le_left small) later)).1

theorem scanFrom_sorted {n bits : Nat} (small : bits < 2 ^ 64) : (scanFrom n bits).Pairwise (· < ·) := by
  induction n generalizing bits with
  | zero => exact .nil
  | succ n ih =>
    rw [scanFrom]
    split
    · exact .nil
    · rename_i nonzero
      obtain ⟨-, bit, low⟩ := countrZero_spec small nonzero
      have smaller : clearLowest bits < 2 ^ 64 := Nat.lt_of_le_of_lt Nat.and_le_left small
      refine List.pairwise_cons.mpr ⟨?_, ih smaller⟩
      intro i member
      obtain ⟨set, other⟩ := (testBit_clearLowest bit low i).mp (testBit_of_mem_scanFrom smaller member)
      have above : ¬ i < countrZero bits := fun below => low i below set
      omega

/-- Each set bit is visited once, the lowest first. -/
theorem scan_sorted {bits : Nat} (small : bits < 2 ^ 64) : (scan bits).Pairwise (· < ·) := scanFrom_sorted small

end BitScan
