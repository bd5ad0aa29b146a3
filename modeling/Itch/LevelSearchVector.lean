import Itch.LevelSearch
import Mathlib.Data.Nat.Bitwise

namespace Itch

section Lanes

/-- An unaligned load of `w` keys from position `p`. -/
def loadLanes (keys : List UInt32) (p w : Nat) : List UInt32 := (List.range w).map fun j => keyAt keys (p + j)

/-- A 32-bit lane as a signed number. -/
def signed (x : UInt32) : Int := if x.toNat < 2 ^ 31 then x.toNat else x.toNat - 2 ^ 32

def xorLanes (a b : List UInt32) : List UInt32 := List.zipWith (· ^^^ ·) a b

def maxEpu32 (a b : List UInt32) : List UInt32 := List.zipWith (fun x y => if x < y then y else x) a b

def cmpgtEpi32 (a b : List UInt32) : List UInt32 :=
  List.zipWith (fun x y => if signed y < signed x then 0xFFFFFFFF else 0) a b

def cmpeqEpi32 (a b : List UInt32) : List UInt32 := List.zipWith (fun x y => if x = y then 0xFFFFFFFF else 0) a b

/-- The sign bits, lane 0 lowest. -/
def movemaskPs : List UInt32 → Nat
  | [] => 0
  | x :: xs => (if 0x80000000 ≤ x then 1 else 0) + 2 * movemaskPs xs

/-- `__builtin_popcount`. -/
def popcount8 (m : Nat) : Nat := (List.range 32).countP m.testBit

theorem testBit_movemaskPs (lanes : List UInt32) (j : Nat) :
    (movemaskPs lanes).testBit j ↔ ∃ x, lanes[j]? = some x ∧ 0x80000000 ≤ x := by
  induction lanes generalizing j with
  | nil => simp [movemaskPs]
  | cons x xs ih =>
    have low : ((if 0x80000000 ≤ x then 1 else 0) + 2 * movemaskPs xs) % 2 = if 0x80000000 ≤ x then 1 else 0 := by
      split <;> omega
    have high : ((if 0x80000000 ≤ x then 1 else 0) + 2 * movemaskPs xs) / 2 = movemaskPs xs := by
      split <;> omega
    cases j with
    | zero => simp [movemaskPs, Nat.testBit_zero, low]
    | succ j => simp only [movemaskPs, Nat.testBit_succ, high, ih, List.getElem?_cons_succ]

/-- Flipping the sign bits turns the signed order into the unsigned one. -/
theorem signed_bias (x : UInt32) : signed (x ^^^ 0x80000000) = x.toNat - 2 ^ 31 := by
  have word := x.toNat_lt
  have low : (x.toNat ^^^ 2 ^ 31) % 2 ^ 31 = x.toNat % 2 ^ 31 := by
    rw [Nat.xor_mod_two_pow, Nat.mod_self, Nat.xor_zero]
  have high : (x.toNat ^^^ 2 ^ 31) / 2 ^ 31 = x.toNat / 2 ^ 31 ^^^ 1 := by
    rw [Nat.xor_div_two_pow, Nat.div_self (by decide)]
  have flipped : (x ^^^ 0x80000000).toNat = x.toNat ^^^ 2 ^ 31 := UInt32.toNat_xor ..
  rw [signed, flipped]
  rcases Nat.lt_or_ge x.toNat (2 ^ 31) with small | large
  · have zero : x.toNat / 2 ^ 31 = 0 := by omega
    rw [zero, Nat.zero_xor] at high
    split <;> omega
  · have one : x.toNat / 2 ^ 31 = 1 := by omega
    rw [one, Nat.xor_self] at high
    split <;> omega

theorem loadLanes_getElem? (keys : List UInt32) (p : Nat) {w j : Nat} (inside : j < w) :
    (loadLanes keys p w)[j]? = some (keyAt keys (p + j)) := by
  simp [loadLanes, inside]

theorem zipWith_lane {α β γ : Type} (f : α → β → γ) {a : List α} {b : List β} {j : Nat} {x : α} {y : β}
    (left : a[j]? = some x) (right : b[j]? = some y) : (List.zipWith f a b)[j]? = some (f x y) := by
  rw [List.getElem?_zipWith, left, right]

theorem broadcast_lane {α : Type} {w j : Nat} (inside : j < w) (x : α) : (List.replicate w x)[j]? = some x := by
  rw [List.getElem?_replicate, if_pos inside]

/-- The mask of a compare has a bit where the compare holds. -/
theorem testBit_compare {lanes : List UInt32} {w : Nat} {P : Nat → Prop} [DecidablePred P] (length : lanes.length = w)
    (compared : ∀ j < w, lanes[j]? = some (if P j then 0xFFFFFFFF else 0)) (j : Nat) :
    (movemaskPs lanes).testBit j ↔ j < w ∧ P j := by
  rw [testBit_movemaskPs]
  by_cases inside : j < w
  · rw [compared j inside]
    by_cases holds : P j
    · simp [inside, holds]
    · simp [inside, holds]
  · have outside : lanes[j]? = none := List.getElem?_eq_none (by omega)
    simp [outside, inside]

/-- Two four-lane masks side by side. -/
theorem testBit_halves {lo hi : Nat} {P : Nat → Prop} (low : ∀ j, lo.testBit j ↔ j < 4 ∧ P j)
    (high : ∀ j, hi.testBit j ↔ j < 4 ∧ P (4 + j)) (j : Nat) : (lo ||| hi <<< 4).testBit j ↔ j < 8 ∧ P j := by
  rw [Nat.testBit_or, Nat.testBit_shiftLeft, Bool.or_eq_true, Bool.and_eq_true, low, high]
  by_cases first : j < 4
  · have eight : j < 8 := by omega
    have notHigh : ¬ 4 ≤ j := by omega
    simp [first, eight, notHigh]
  · have position : 4 + (j - 4) = j := by omega
    have second : 4 ≤ j ∧ j - 4 < 4 ↔ j < 8 := by omega
    rw [position]
    simp only [first, false_and, false_or, decide_eq_true_eq, ← and_assoc, second, ge_iff_le]

theorem countP_range_interval (a b n : Nat) : (List.range n).countP (fun j => a ≤ j ∧ j < b) = min b n - a := by
  induction n with
  | zero => simp
  | succ n ih =>
    rw [List.range_succ, List.countP_append, ih, List.countP_singleton]
    split <;> rename_i inside <;> simp only [decide_eq_true_eq] at inside <;> omega

theorem popcount8_interval {m a b : Nat} (short : b ≤ 32) (bits : ∀ j, m.testBit j ↔ a ≤ j ∧ j < b) :
    popcount8 m = b - a := by
  have same : ∀ j ∈ List.range 32, m.testBit j = true ↔ decide (a ≤ j ∧ j < b) = true := fun j _ => by
    rw [bits, decide_eq_true_eq]
  rw [popcount8, List.countP_congr same, countP_range_interval]
  omega

/-- Masking a word to its low `i` bits. -/
theorem testBit_maskLow (m i j : Nat) : (m &&& 1 <<< i - 1).testBit j ↔ m.testBit j ∧ j < i := by
  rw [Nat.testBit_and, Nat.shiftLeft_eq, Nat.one_mul, Nat.testBit_two_pow_sub_one, Bool.and_eq_true, decide_eq_true_eq]

end Lanes

namespace Sse2

/-- The lanes of `keys[p .. p + 8)` that are below `key`. -/
def ltMask8 (keys : List UInt32) (key : UInt32) (p : Nat) : Nat :=
  let bias := List.replicate 4 0x80000000
  let kb := List.replicate 4 (key ^^^ 0x80000000)
  let lo := xorLanes (loadLanes keys p 4) bias
  let hi := xorLanes (loadLanes keys (p + 4) 4) bias
  movemaskPs (cmpgtEpi32 kb lo) ||| movemaskPs (cmpgtEpi32 kb hi) <<< 4

/-- Eight keys at a time from the back, then the rest. -/
def searchBack (keys : List UInt32) (key : UInt32) : Nat → Nat → Nat
  | chunks, i =>
    if kLevelSearchPad ≤ i then
      match chunks with
      | 0 => lowerBoundBranchless keys i key
      | chunks + 1 =>
        let lt := ltMask8 keys key (i - 8)
        if lt ≠ 0 then i - 8 + popcount8 lt else searchBack keys key chunks (i - 8)
    else popcount8 (ltMask8 keys key 0 &&& 1 <<< i - 1)

def lowerBoundFromBack (chunks : Nat) (keys : List UInt32) (n : Nat) (key : UInt32) : Nat := searchBack keys key chunks n

theorem testBit_half (keys : List UInt32) (key : UInt32) (p j : Nat) :
    (movemaskPs (cmpgtEpi32 (List.replicate 4 (key ^^^ 0x80000000))
      (xorLanes (loadLanes keys p 4) (List.replicate 4 0x80000000)))).testBit j ↔ j < 4 ∧ keyAt keys (p + j) < key := by
  refine @testBit_compare _ _ (fun j => keyAt keys (p + j) < key) _ (by simp [cmpgtEpi32, xorLanes, loadLanes]) ?_ j
  intro j inside
  have biased := zipWith_lane (· ^^^ ·) (loadLanes_getElem? keys p inside) (broadcast_lane inside 0x80000000)
  have less : signed (keyAt keys (p + j) ^^^ 0x80000000) < signed (key ^^^ 0x80000000) ↔ keyAt keys (p + j) < key := by
    rw [signed_bias, signed_bias, UInt32.lt_iff_toNat_lt]
    omega
  refine (zipWith_lane _ (broadcast_lane inside _) biased).trans ?_
  simp only [less]

theorem testBit_ltMask8 (keys : List UInt32) (key : UInt32) (p j : Nat) :
    (ltMask8 keys key p).testBit j ↔ j < 8 ∧ keyAt keys (p + j) < key := by
  refine @testBit_halves _ _ (fun j => keyAt keys (p + j) < key) (testBit_half keys key p) ?_ j
  intro j
  rw [testBit_half, Nat.add_assoc]

/-- Fewer than eight keys: one load whose lanes past them are masked off. -/
theorem tail_eq {keys : List UInt32} {n r i : Nat} {key : UInt32} (bound : IsLowerBound keys n key r)
    (reached : r ≤ i) (inside : i ≤ n) (short : i < 8) : popcount8 (ltMask8 keys key 0 &&& 1 <<< i - 1) = r := by
  have bits : ∀ j, (ltMask8 keys key 0 &&& 1 <<< i - 1).testBit j ↔ 0 ≤ j ∧ j < r := by
    intro j
    rw [testBit_maskLow, testBit_ltMask8, Nat.zero_add]
    by_cases lane : j < i
    · rw [bound.lt_iff (by omega)]
      omega
    · omega
  exact popcount8_interval (by omega) bits

theorem searchBack_eq {keys : List UInt32} {n r : Nat} {key : UInt32} (bound : IsLowerBound keys n key r)
    (chunks i : Nat) (reached : r ≤ i) (inside : i ≤ n) : searchBack keys key chunks i = r := by
  induction chunks generalizing i with
  | zero =>
    rw [searchBack]
    split
    · exact lowerBoundBranchless_eq (bound.shorten reached inside)
    · rename_i short
      exact tail_eq bound reached inside (by rw [kLevelSearchPad] at short; omega)
  | succ chunks ih =>
    rw [searchBack]
    split
    · rename_i whole
      rw [kLevelSearchPad] at whole
      have bits : ∀ j, (ltMask8 keys key (i - 8)).testBit j ↔ 0 ≤ j ∧ j < r - (i - 8) := by
        intro j
        rw [testBit_ltMask8]
        by_cases lane : j < 8
        · rw [bound.lt_iff (by omega)]
          omega
        · omega
      dsimp only
      split
      · rename_i some
        obtain ⟨j, bit⟩ := Nat.exists_testBit_of_ne_zero some
        have positive := (bits j).mp bit
        rw [popcount8_interval (by omega) bits]
        omega
      · rename_i none
        have first := mt (bits 0).mpr (by rw [not_not.mp none]; simp)
        exact ih (i - 8) (by omega) (by omega)
    · rename_i short
      exact tail_eq bound reached inside (by rw [kLevelSearchPad] at short; omega)

theorem lowerBoundFromBack_eq (chunks : Nat) {keys : List UInt32} {n r : Nat} {key : UInt32}
    (bound : IsLowerBound keys n key r) : lowerBoundFromBack chunks keys n key = r :=
  searchBack_eq bound chunks n bound.le (Nat.le_refl n)

end Sse2

section UnsignedMax

/-- Where the maximum with `key` is the lane itself the lane is not below `key`. -/
theorem testBit_max (keys : List UInt32) (key : UInt32) (p w j : Nat) :
    (movemaskPs (cmpeqEpi32 (maxEpu32 (loadLanes keys p w) (List.replicate w key)) (loadLanes keys p w))).testBit j ↔
      j < w ∧ ¬ keyAt keys (p + j) < key := by
  refine @testBit_compare _ _ (fun j => ¬ keyAt keys (p + j) < key) _ (by simp [cmpeqEpi32, maxEpu32, loadLanes]) ?_ j
  intro j inside
  have lane := loadLanes_getElem? keys p inside
  have larger := zipWith_lane (fun x y => if x < y then y else x) lane (broadcast_lane inside key)
  refine (zipWith_lane _ larger lane).trans ?_
  by_cases below : keyAt keys (p + j) < key
  · have other : key ≠ keyAt keys (p + j) := fun same => UInt32.lt_irrefl _ (same ▸ below)
    simp [below, other]
  · simp [below]

/-- The back scan of the kernels whose compare gives the lanes not below the key. -/
def geSearchBack (geMask8 : Nat → Nat) (keys : List UInt32) (key : UInt32) : Nat → Nat → Nat
  | chunks, i =>
    if kLevelSearchPad ≤ i then
      match chunks with
      | 0 => lowerBoundBranchless keys i key
      | chunks + 1 =>
        let ge := geMask8 (i - 8)
        if ge ≠ 0xFF then i - popcount8 ge else geSearchBack geMask8 keys key chunks (i - 8)
    else i - popcount8 (geMask8 0 &&& 1 <<< i - 1)

variable {keys : List UInt32} {n r : Nat} {key : UInt32} {geMask8 : Nat → Nat}

theorem geTail_eq (mask : ∀ p j, (geMask8 p).testBit j ↔ j < 8 ∧ ¬ keyAt keys (p + j) < key)
    (bound : IsLowerBound keys n key r) {i : Nat} (reached : r ≤ i) (inside : i ≤ n) (short : i < 8) :
    i - popcount8 (geMask8 0 &&& 1 <<< i - 1) = r := by
  have bits : ∀ j, (geMask8 0 &&& 1 <<< i - 1).testBit j ↔ r ≤ j ∧ j < i := by
    intro j
    rw [testBit_maskLow, mask, Nat.zero_add]
    by_cases lane : j < i
    · rw [bound.lt_iff (by omega)]
      omega
    · omega
  rw [popcount8_interval (by omega) bits]
  omega

theorem geSearchBack_eq (mask : ∀ p j, (geMask8 p).testBit j ↔ j < 8 ∧ ¬ keyAt keys (p + j) < key)
    (bound : IsLowerBound keys n key r) (chunks i : Nat) (reached : r ≤ i) (inside : i ≤ n) :
    geSearchBack geMask8 keys key chunks i = r := by
  induction chunks generalizing i with
  | zero =>
    rw [geSearchBack]
    split
    · exact lowerBoundBranchless_eq (bound.shorten reached inside)
    · rename_i short
      exact geTail_eq mask bound reached inside (by rw [kLevelSearchPad] at short; omega)
  | succ chunks ih =>
    rw [geSearchBack]
    split
    · rename_i whole
      rw [kLevelSearchPad] at whole
      have bits : ∀ j, (geMask8 (i - 8)).testBit j ↔ r - (i - 8) ≤ j ∧ j < 8 := by
        intro j
        rw [mask]
        by_cases lane : j < 8
        · rw [bound.lt_iff (by omega)]
          omega
        · omega
      dsimp only
      split
      · rename_i partly
        have reaches : i - 8 < r := by
          by_contra before
          have whole : geMask8 (i - 8) = 2 ^ 8 - 1 := by
            apply Nat.eq_of_testBit_eq
            intro j
            rw [Bool.eq_iff_iff, bits, Nat.testBit_two_pow_sub_one, decide_eq_true_eq]
            omega
          exact partly whole
        rw [popcount8_interval (by omega) bits]
        omega
      · rename_i all
        have first := (bits 0).mp (by rw [not_not.mp all]; rfl)
        exact ih (i - 8) (by omega) (by omega)
    · rename_i short
      exact geTail_eq mask bound reached inside (by rw [kLevelSearchPad] at short; omega)

end UnsignedMax

namespace Sse41

/-- The lanes of `keys[p .. p + 8)` that are not below `key`, in two registers. -/
def geMask8 (keys : List UInt32) (key : UInt32) (p : Nat) : Nat :=
  let k := List.replicate 4 key
  let lo := loadLanes keys p 4
  let hi := loadLanes keys (p + 4) 4
  movemaskPs (cmpeqEpi32 (maxEpu32 lo k) lo) ||| movemaskPs (cmpeqEpi32 (maxEpu32 hi k) hi) <<< 4

def lowerBoundFromBack (chunks : Nat) (keys : List UInt32) (n : Nat) (key : UInt32) : Nat :=
  geSearchBack (geMask8 keys key) keys key chunks n

theorem testBit_geMask8 (keys : List UInt32) (key : UInt32) (p j : Nat) :
    (geMask8 keys key p).testBit j ↔ j < 8 ∧ ¬ keyAt keys (p + j) < key := by
  refine @testBit_halves _ _ (fun j => ¬ keyAt keys (p + j) < key) (testBit_max keys key p 4) ?_ j
  intro j
  rw [testBit_max, Nat.add_assoc]

end Sse41

namespace Avx2

/-- The lanes of `keys[p .. p + 8)` that are not below `key`, in one register. -/
def geMask8 (keys : List UInt32) (key : UInt32) (p : Nat) : Nat :=
  let v := loadLanes keys p 8
  movemaskPs (cmpeqEpi32 (maxEpu32 v (List.replicate 8 key)) v)

def lowerBoundFromBack (chunks : Nat) (keys : List UInt32) (n : Nat) (key : UInt32) : Nat :=
  geSearchBack (geMask8 keys key) keys key chunks n

end Avx2

/-- The kernel sets a build can select. -/
inductive SimdLevel where
  | scalar
  | sse2
  | sse41
  | avx2
  deriving DecidableEq

/-- `lower_bound_from_back` of a build. -/
def SimdLevel.search (level : SimdLevel) (chunks : Nat) : LevelSearch :=
  match level with
  | scalar => ⟨Scalar.lowerBoundFromBack chunks, fun _ _ _ _ bound => Scalar.lowerBoundFromBack_eq chunks bound⟩
  | sse2 => ⟨Sse2.lowerBoundFromBack chunks, fun _ _ _ _ bound => Sse2.lowerBoundFromBack_eq chunks bound⟩
  | sse41 => ⟨Sse41.lowerBoundFromBack chunks, fun keys n key _ bound =>
      geSearchBack_eq (Sse41.testBit_geMask8 keys key) bound chunks n bound.le (Nat.le_refl n)⟩
  | avx2 => ⟨Avx2.lowerBoundFromBack chunks, fun keys n key _ bound =>
      geSearchBack_eq (fun p j => testBit_max keys key p 8 j) bound chunks n bound.le (Nat.le_refl n)⟩

end Itch
