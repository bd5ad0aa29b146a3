import Itch.Histogram
import Itch.Lib.Tiling
import Mathlib.Order.Fin.Basic
import Mathlib.Data.Nat.SuccPred

namespace Itch

namespace LatencyHistogram

section Leading

variable {u v : Nat}

theorem octave_unique {o : Nat} (low : 128 * 2 ^ o ≤ v) (high : v < 256 * 2 ^ o) : octave v = o := by
  have above : o + 7 < v.size := by
    apply Nat.lt_size.mpr
    calc 2 ^ (o + 7) = 128 * 2 ^ o := by rw [pow_add, Nat.mul_comm]; rfl
      _ ≤ v := low
  have below : v.size ≤ o + 8 := by
    apply Nat.size_le.mpr
    calc v < 256 * 2 ^ o := high
      _ = 2 ^ (o + 8) := by rw [pow_add, Nat.mul_comm]; rfl
  rw [octave, kSubBits]
  omega

/-- The leading bits that are kept of a value tell its octave. -/
theorem octave_of_leading (same : u / 2 ^ octave v = v / 2 ^ octave v) : octave u = octave v := by
  rcases Nat.lt_or_ge v 256 with low | log
  · rw [octave_of_exact low, pow_zero, Nat.div_one, Nat.div_one] at same
    rw [same]
  · have positive : 0 < 2 ^ octave v := Nat.two_pow_pos _
    obtain ⟨least, greatest⟩ := leading_bounds log
    rw [← same] at least greatest
    exact octave_unique ((Nat.le_div_iff_mul_le positive).mp least) ((Nat.div_lt_iff_lt_mul positive).mp greatest)

theorem bucket_of_leading (same : u / 2 ^ octave v = v / 2 ^ octave v) : bucket u = bucket v := by
  rw [bucket, octave_of_leading same, same, bucket]

theorem leading_bottom (v : Nat) : v / 2 ^ octave v * 2 ^ octave v / 2 ^ octave v = v / 2 ^ octave v :=
  Nat.mul_div_cancel _ (Nat.two_pow_pos _)

theorem leading_top (v : Nat) : bucketTop v / 2 ^ octave v = v / 2 ^ octave v := by
  have positive : 0 < 2 ^ octave v := Nat.two_pow_pos _
  have last : bucketTop v = 2 ^ octave v - 1 + 2 ^ octave v * (v / 2 ^ octave v) := by
    rw [bucketTop, Nat.add_mul, Nat.one_mul, Nat.mul_comm]
    omega
  rw [last, Nat.add_mul_div_left _ _ positive, Nat.div_eq_of_lt (Nat.sub_lt positive Nat.one_pos), Nat.zero_add]

/-- A bucket is narrower than a part in 128 of its least value. -/
theorem bucket_narrow (log : 256 ≤ v) :
    128 * (bucketTop v - v / 2 ^ octave v * 2 ^ octave v) < v / 2 ^ octave v * 2 ^ octave v := by
  have positive : 0 < 2 ^ octave v := Nat.two_pow_pos _
  have wide : 128 * 2 ^ octave v ≤ v / 2 ^ octave v * 2 ^ octave v := Nat.mul_le_mul_right _ (leading_bounds log).1
  rw [bucketTop, Nat.add_mul, Nat.one_mul]
  omega

end Leading

/-- Every bucket has a value, its octave and its leading bits side by side. -/
theorem bucket_surjective {i : Nat} (inside : i < kBuckets) : ∃ v < 2 ^ 64, bucket v = i := by
  rw [kBuckets_eq] at inside
  rcases Nat.lt_or_ge i 256 with low | log
  · refine ⟨i, by omega, ?_⟩
    rw [bucket, octave_of_exact low, pow_zero, Nat.div_one, Nat.mul_zero, Nat.zero_add]
  · obtain ⟨o, t, shape, few, least, greatest⟩ : ∃ o t, i = 128 * o + t ∧ o ≤ 56 ∧ 128 ≤ t ∧ t < 256 :=
      ⟨(i - 256) / 128 + 1, 128 + (i - 256) % 128, by omega, by omega, by omega, by omega⟩
    have positive : 0 < 2 ^ o := Nat.two_pow_pos _
    have here : octave (t * 2 ^ o) = o :=
      octave_unique (Nat.mul_le_mul_right _ least) (Nat.mul_lt_mul_of_pos_right greatest positive)
    refine ⟨t * 2 ^ o, ?_, ?_⟩
    · calc t * 2 ^ o < 2 ^ 8 * 2 ^ o := Nat.mul_lt_mul_of_pos_right greatest positive
        _ ≤ 2 ^ 8 * 2 ^ 56 := Nat.mul_le_mul_left _ (Nat.pow_le_pow_right (by decide) few)
        _ = 2 ^ 64 := by rw [← pow_add]
    · rw [bucket, here, Nat.mul_div_cancel _ positive, shape]

theorem index_mono {u v : UInt64} (le : u ≤ v) : index u ≤ index v := by
  rw [index_eq, index_eq]
  exact bucket_mono (UInt64.le_iff_toNat_le.mp le)

theorem index_bounds (v : UInt64) : lowerBound (index v) ≤ v ∧ v ≤ upperBound (index v) := by
  rw [index_eq, UInt64.le_iff_toNat_le, UInt64.le_iff_toNat_le]
  exact bounds_spec v.toNat_lt

theorem index_lowerBound {i : Nat} (inside : i < kBuckets) : index (lowerBound i) = i := by
  obtain ⟨v, bound, rfl⟩ := bucket_surjective inside
  rw [index_eq, lowerBound_bucket bound]
  exact bucket_of_leading (leading_bottom v)

theorem index_upperBound {i : Nat} (inside : i < kBuckets) : index (upperBound i) = i := by
  obtain ⟨v, bound, rfl⟩ := bucket_surjective inside
  rw [index_eq, upperBound_bucket bound]
  exact bucket_of_leading (leading_top v)

/-- The buckets as tiles of the 64-bit values. -/
def tiling : Tiling (Fin (2 ^ 64)) (Fin kBuckets) where
  index v := ⟨index (.ofFin v), index_lt _⟩
  lower i := (lowerBound i).toFin
  upper i := (upperBound i).toFin
  mono _ _ le := index_mono (UInt64.le_iff_toFin_le.mpr le)
  lower_le v := UInt64.le_iff_toFin_le.mp (index_bounds (.ofFin v)).1
  le_upper v := UInt64.le_iff_toFin_le.mp (index_bounds (.ofFin v)).2
  index_lower i := Fin.ext (index_lowerBound i.isLt)
  index_upper i := Fin.ext (index_upperBound i.isLt)

theorem lowerBound_succ {i : Nat} (inside : i + 1 < kBuckets) : (lowerBound (i + 1)).toNat = (upperBound i).toNat + 1 := by
  have next : (⟨i, Nat.lt_of_succ_lt inside⟩ : Fin kBuckets) ⋖ ⟨i + 1, inside⟩ := by
    simp [Fin.covBy_iff]
  have adjacent := tiling.upper_covBy_lower next
  rw [Fin.covBy_iff, Nat.covBy_iff_add_one_eq] at adjacent
  exact adjacent.symm

theorem upperBound_last : (upperBound (kBuckets - 1)).toNat = 2 ^ 64 - 1 := by
  have last : IsTop (⟨kBuckets - 1, by decide⟩ : Fin kBuckets) := fun i => Nat.le_sub_one_of_lt i.isLt
  have top := tiling.upper_isTop last ⟨2 ^ 64 - 1, by decide⟩
  exact Nat.le_antisymm (Nat.le_sub_one_of_lt (UInt64.toNat_lt _)) top

/-- Past the last bucket both sides of the equation wrap to 0. -/
theorem lowerBound_next {i : Nat} (inside : i < kBuckets) : lowerBound (i + 1) = upperBound i + 1 := by
  have one : (1 : UInt64).toNat = 1 := rfl
  apply UInt64.toNat_inj.mp
  rcases Nat.lt_or_ge (i + 1) kBuckets with more | last
  · have next := lowerBound_succ more
    have word := (lowerBound (i + 1)).toNat_lt
    rw [UInt64.toNat_add, one, ← next, Nat.mod_eq_of_lt word]
  · obtain rfl : i = kBuckets - 1 := by omega
    rw [UInt64.toNat_add, upperBound_last]
    rfl

theorem buckets_tile_words :
    (∀ v : UInt64, index v < kBuckets ∧ lowerBound (index v) ≤ v ∧ v ≤ upperBound (index v)) ∧
      (∀ u v : UInt64, u ≤ v → index u ≤ index v) ∧
      (∀ i < kBuckets, index (lowerBound i) = i ∧ index (upperBound i) = i ∧ lowerBound (i + 1) = upperBound i + 1) ∧
      (∀ i, i + 1 < kBuckets → (lowerBound (i + 1)).toNat = (upperBound i).toNat + 1) ∧
      upperBound (kBuckets - 1) = .ofNat (2 ^ 64 - 1) ∧
      ∀ v : UInt64, 256 ≤ v.toNat →
        128 * ((upperBound (index v)).toNat - (lowerBound (index v)).toNat) < (lowerBound (index v)).toNat := by
  refine ⟨fun v => ⟨index_lt v, index_bounds v⟩, fun u v le => index_mono le, ?_, fun i more => lowerBound_succ more, ?_, ?_⟩
  · intro i inside
    exact ⟨index_lowerBound inside, index_upperBound inside, lowerBound_next inside⟩
  · exact UInt64.toNat_inj.mp upperBound_last
  · intro v log
    rw [index_eq, upperBound_bucket v.toNat_lt, lowerBound_bucket v.toNat_lt]
    exact bucket_narrow log

/-- Where the exact values end. -/
theorem buckets_tile_words_at_256 :
    index 255 ≤ index 256 ∧ index (lowerBound 256) = 256 ∧ (lowerBound 257).toNat = (upperBound 256).toNat + 1 ∧
      128 * ((upperBound (index 256)).toNat - (lowerBound (index 256)).toNat) < (lowerBound (index 256)).toNat := by
  obtain ⟨-, mono, buckets, next, -, narrow⟩ := buckets_tile_words
  exact ⟨mono 255 256 (by decide), (buckets 256 (by decide)).1, next 256 (by decide), narrow 256 (by decide)⟩

end LatencyHistogram

end Itch
