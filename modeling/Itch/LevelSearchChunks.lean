import Itch.LevelSearchReads

namespace Itch

/-- How many of the first `n` keys are at or above `key`. -/
def countAtOrAbove (keys : List UInt32) (n : Nat) (key : UInt32) : Nat :=
  (List.range n).countP fun i => key ≤ keyAt keys i

/-- The chunks that the back scan compares for a search that meets `ge` such keys. -/
def DepthProfiler.chunksFor (ge : Nat) : Nat := ge / 8 + 1

/-- The lanes that `count` compares load: eight each, from the back of `n` keys on. What is
left of the keys at the end is in the first lanes of the last one. -/
def comparedLanes (n count : Nat) : List Nat := (List.range count).flatMap fun c => List.range' (n - 8 * (c + 1)) 8

theorem comparedLanes_one (n : Nat) : comparedLanes n 1 = List.range' (n - 8) 8 := List.append_nil _

theorem comparedLanes_succ (n count : Nat) :
    comparedLanes n (count + 1) = List.range' (n - 8) 8 ++ comparedLanes (n - 8) count := by
  have rest : ∀ c, n - 8 * (c + 1 + 1) = n - 8 - 8 * (c + 1) := by
    intro c
    omega
  rw [comparedLanes, List.range_succ_eq_map, List.flatMap_cons, List.flatMap_map]
  simp only [Nat.succ_eq_add_one, rest]
  rfl

variable {keys : List UInt32} {n r : Nat} {key : UInt32}

/-- Of ascending keys those from the lower bound on are at or above the key. -/
theorem IsLowerBound.countAtOrAbove_eq (bound : IsLowerBound keys n key r) : countAtOrAbove keys n key = n - r := by
  have inside : ∀ i ∈ List.range n, decide (key ≤ keyAt keys i) = true ↔ decide (r ≤ i ∧ i < n) = true := by
    intro i member
    have before := List.mem_range.mp member
    rw [decide_eq_true_eq, decide_eq_true_eq, ← UInt32.not_lt, bound.lt_iff before]
    omega
  rw [countAtOrAbove, List.countP_congr inside, countP_range_interval]
  omega

section Chunk

variable {i : Nat} (bound : IsLowerBound keys n key r) (inside : i ≤ n) (whole : 8 ≤ i)
include bound inside whole

/-- A whole chunk holds a key below `key` exactly if the lower bound is past its start. -/
theorem Sse2.ltMask8_ne_zero_iff : ltMask8 keys key (i - 8) ≠ 0 ↔ i - 8 < r := by
  have first := @IsLowerBound.lt_iff _ _ _ _ bound (i - 8) (by omega)
  constructor
  · intro some
    obtain ⟨j, bit⟩ := Nat.exists_testBit_of_ne_zero some
    obtain ⟨lane, below⟩ := (testBit_ltMask8 keys key (i - 8) j).mp bit
    rw [bound.lt_iff (by omega)] at below
    omega
  · intro reaches zero
    have bit := (testBit_ltMask8 keys key (i - 8) 0).mpr ⟨by decide, first.mpr reaches⟩
    rw [zero, Nat.zero_testBit] at bit
    cases bit

theorem geMask8_ne_all_iff {geMask8 : Nat → Nat} (mask : ∀ p j, (geMask8 p).testBit j ↔ j < 8 ∧ ¬ keyAt keys (p + j) < key) :
    geMask8 (i - 8) ≠ 0xFF ↔ i - 8 < r := by
  have first := @IsLowerBound.lt_iff _ _ _ _ bound (i - 8) (by omega)
  constructor
  · intro partly
    by_contra before
    have all : geMask8 (i - 8) = 2 ^ 8 - 1 := by
      apply Nat.eq_of_testBit_eq
      intro j
      rw [Bool.eq_iff_iff, mask, Nat.testBit_two_pow_sub_one, decide_eq_true_eq]
      constructor
      · exact And.left
      · intro lane
        refine ⟨lane, ?_⟩
        rw [bound.lt_iff (by omega)]
        omega
    exact partly all
  · intro reaches all
    have bit := (mask (i - 8) 0).mp (by rw [all]; rfl)
    exact bit.2 (first.mpr reaches)

end Chunk

theorem Sse2.log_ltMask8 (p : Nat) : (ltMask8Reads key p).log keys = List.range' p 8 := rfl

theorem Sse41.log_geMask8 (p : Nat) : (geMask8Reads key p).log keys = List.range' p 8 := rfl

theorem Avx2.log_geMask8 (p : Nat) : (geMask8Reads key p).log keys = List.range' p 8 := List.append_nil _

/-- A search that ends in its first chunk. -/
theorem comparedLanes_first {i : Nat} (near : i - r < 8) :
    comparedLanes i (DepthProfiler.chunksFor (i - r)) = List.range' (i - 8) 8 := by
  rw [DepthProfiler.chunksFor, Nat.div_eq_of_lt near, comparedLanes_one]

/-- A search that goes on below its first chunk. -/
theorem comparedLanes_next {i : Nat} (far : r ≤ i - 8) (whole : 8 ≤ i) :
    comparedLanes i (DepthProfiler.chunksFor (i - r)) =
      List.range' (i - 8) 8 ++ comparedLanes (i - 8) (DepthProfiler.chunksFor (i - 8 - r)) := by
  have chunks : (i - r) / 8 = (i - 8 - r) / 8 + 1 := by omega
  rw [DepthProfiler.chunksFor, chunks, comparedLanes_succ]
  rfl

open Traced

theorem Sse2.log_searchBack (bound : IsLowerBound keys n key r) {chunks i : Nat} (inside : i ≤ n) (reached : r ≤ i)
    (uncapped : i / 8 ≤ chunks) :
    (searchBackReads key chunks i).log keys = comparedLanes i (DepthProfiler.chunksFor (i - r)) := by
  induction chunks generalizing i with
  | zero =>
    rw [searchBackReads, kLevelSearchPad, if_neg (by omega), log_bind, log_ltMask8, comparedLanes_first (by omega),
      Nat.sub_eq_zero_of_le (by omega : i ≤ 8)]
    rfl
  | succ chunks ih =>
    rw [searchBackReads, kLevelSearchPad]
    by_cases whole : 8 ≤ i
    · have below := ltMask8_ne_zero_iff bound inside whole
      have value : (ltMask8Reads key (i - 8)).value keys = ltMask8 keys key (i - 8) := rfl
      rw [if_pos whole, log_bind, log_ltMask8, log_ite, value]
      by_cases reaches : i - 8 < r
      · rw [if_pos (below.mpr reaches), comparedLanes_first (by omega)]
        rfl
      · rw [if_neg (mt below.mp reaches), comparedLanes_next (by omega) whole, ih (by omega) (by omega) (by omega)]
    · rw [if_neg whole, log_bind, log_ltMask8, comparedLanes_first (by omega), Nat.sub_eq_zero_of_le (by omega : i ≤ 8)]
      rfl

theorem log_geSearchBack {reads : Nat → KeyReads Nat} {geMask8 : Nat → Nat} (same : ∀ p, (reads p).value keys = geMask8 p)
    (lanes : ∀ p, (reads p).log keys = List.range' p 8)
    (mask : ∀ p j, (geMask8 p).testBit j ↔ j < 8 ∧ ¬ keyAt keys (p + j) < key) (bound : IsLowerBound keys n key r)
    {chunks i : Nat} (inside : i ≤ n) (reached : r ≤ i) (uncapped : i / 8 ≤ chunks) :
    (geSearchBackReads reads key chunks i).log keys = comparedLanes i (DepthProfiler.chunksFor (i - r)) := by
  induction chunks generalizing i with
  | zero =>
    rw [geSearchBackReads, kLevelSearchPad, if_neg (by omega), log_bind, lanes, comparedLanes_first (by omega),
      Nat.sub_eq_zero_of_le (by omega : i ≤ 8)]
    rfl
  | succ chunks ih =>
    rw [geSearchBackReads, kLevelSearchPad]
    by_cases whole : 8 ≤ i
    · have below := geMask8_ne_all_iff bound inside whole mask
      rw [if_pos whole, log_bind, lanes, log_ite, same]
      by_cases reaches : i - 8 < r
      · rw [if_pos (below.mpr reaches), comparedLanes_first (by omega)]
        rfl
      · rw [if_neg (mt below.mp reaches), comparedLanes_next (by omega) whole, ih (by omega) (by omega) (by omega)]
    · rw [if_neg whole, log_bind, lanes, comparedLanes_first (by omega), Nat.sub_eq_zero_of_le (by omega : i ≤ 8)]
      rfl

/-- The kernels that compare eight keys at a time. -/
def SimdLevel.vector (level : SimdLevel) : Prop := level ≠ .scalar

/-- A back scan that no cap stops compares as many chunks as the profiler says. -/
theorem compared_chunks {level : SimdLevel} (vector : level.vector) {chunks n : Nat} (uncapped : n / 8 ≤ chunks)
    {keys : List UInt32} (sorted : Ascending keys n) (key : UInt32) : ((Kernel.fromBack level).reads chunks n key).log keys =
      comparedLanes n (DepthProfiler.chunksFor (countAtOrAbove keys n key)) := by
  obtain ⟨r, bound⟩ := sorted.exists_lowerBound key
  have le := bound.le
  rw [bound.countAtOrAbove_eq]
  cases level with
  | scalar => exact absurd rfl vector
  | sse2 => exact Sse2.log_searchBack bound (Nat.le_refl n) le uncapped
  | sse41 =>
    exact log_geSearchBack (fun _ => rfl) (fun _ => Sse41.log_geMask8 _) (Sse41.testBit_geMask8 keys key) bound (Nat.le_refl n)
      le uncapped
  | avx2 =>
    exact log_geSearchBack (fun _ => rfl) (fun _ => Avx2.log_geMask8 _) (fun p j => testBit_max keys key p 8 j) bound
      (Nat.le_refl n) le uncapped

end Itch
