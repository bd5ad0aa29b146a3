import Mathlib.Data.Nat.Size
import Mathlib.Tactic.Ring

namespace Itch

namespace LatencyHistogram

def kSubBits : Nat := 8

/-- The values below are recorded exactly. -/
def kLinear : Nat := 2 ^ kSubBits

/-- The sub-buckets of an octave. -/
def kHalf : Nat := 2 ^ (kSubBits - 1)

def kBuckets : Nat := kLinear + (64 - kSubBits) * kHalf

/-- The bucket of a value. -/
def index (v : UInt64) : Nat :=
  if v.toNat < kLinear then v.toNat else
  let e := v.toNat.size - 1
  let shift := e - (kSubBits - 1)
  let top := v.toNat >>> shift
  kLinear + (shift - 1) * kHalf + (top - kHalf)

/-- The least value of a bucket. -/
def lowerBound (i : Nat) : UInt64 :=
  if i < kLinear then .ofNat i else
  let j := i - kLinear
  let shift := j / kHalf + 1
  let top := kHalf + j % kHalf
  .ofNat top <<< .ofNat shift

/-- The greatest value of a bucket. For the last one the shift wraps to 0. -/
def upperBound (i : Nat) : UInt64 :=
  if i < kLinear then .ofNat i else
  let j := i - kLinear
  let shift := j / kHalf + 1
  let top := kHalf + j % kHalf
  (.ofNat (top + 1) <<< .ofNat shift) - 1

theorem kLinear_eq : kLinear = 256 := rfl

theorem kHalf_eq : kHalf = 128 := rfl

theorem kBuckets_eq : kBuckets = 7424 := rfl

/-- How often the width of the buckets has doubled at a value. -/
def octave (v : Nat) : Nat := v.size - kSubBits

section Octave

variable {u v : Nat}

theorem octave_of_exact (exact_ : v < 256) : octave v = 0 := Nat.sub_eq_zero_of_le (Nat.size_le.mpr exact_)

theorem octave_bounds (log : 256 ≤ v) : 1 ≤ octave v ∧ 128 * 2 ^ octave v ≤ v ∧ v < 256 * 2 ^ octave v := by
  have high : kSubBits < v.size := Nat.lt_size.mpr log
  have split : v.size = octave v + 8 := (Nat.sub_add_cancel high.le).symm
  refine ⟨Nat.sub_pos_of_lt high, ?_, ?_⟩
  · have below : octave v + 7 < v.size := by omega
    calc 128 * 2 ^ octave v = 2 ^ (octave v + 7) := by rw [pow_add, Nat.mul_comm]; rfl
      _ ≤ v := Nat.lt_size.mp below
  · calc v < 2 ^ v.size := Nat.lt_size_self v
      _ = 256 * 2 ^ octave v := by rw [split, pow_add, Nat.mul_comm]; rfl

/-- Outside the exact region eight leading bits are kept. -/
theorem leading_bounds (log : 256 ≤ v) : 128 ≤ v / 2 ^ octave v ∧ v / 2 ^ octave v < 256 := by
  obtain ⟨-, low, high⟩ := octave_bounds log
  have positive : 0 < 2 ^ octave v := Nat.two_pow_pos _
  exact ⟨(Nat.le_div_iff_mul_le positive).mpr low, (Nat.div_lt_iff_lt_mul positive).mpr high⟩

theorem leading_lt (v : Nat) : v / 2 ^ octave v < 256 := by
  rcases Nat.lt_or_ge v 256 with low | log
  · exact (Nat.div_le_self ..).trans_lt low
  · exact (leading_bounds log).2

theorem octave_le (bound : v < 2 ^ 64) : octave v ≤ 56 := Nat.sub_le_sub_right (Nat.size_le.mpr bound) _

theorem octave_mono (le : u ≤ v) : octave u ≤ octave v := Nat.sub_le_sub_right (Nat.size_le_size le) _

theorem log_of_octave (first : octave v ≠ 0) : 256 ≤ v := by
  by_contra low
  exact first (octave_of_exact (Nat.lt_of_not_le low))

end Octave

/-- The buckets are numbered by octave and leading bits. -/
def bucket (v : Nat) : Nat := 128 * octave v + v / 2 ^ octave v

/-- The greatest value of the bucket of `v`. -/
def bucketTop (v : Nat) : Nat := (v / 2 ^ octave v + 1) * 2 ^ octave v - 1

section Bucket

variable {u v : Nat}

theorem bucket_mono (le : u ≤ v) : bucket u ≤ bucket v := by
  unfold bucket
  rcases Nat.lt_or_ge (octave u) (octave v) with earlier | later
  · have high := leading_lt u
    obtain ⟨low, -⟩ := leading_bounds (log_of_octave (Nat.ne_zero_of_lt earlier))
    omega
  · rw [Nat.le_antisymm (octave_mono le) later]
    exact Nat.add_le_add_left (Nat.div_le_div_right le) _

theorem bucketTop_mono (le : u ≤ v) : bucketTop u ≤ bucketTop v := by
  refine Nat.sub_le_sub_right ?_ 1
  rcases Nat.lt_or_ge (octave u) (octave v) with earlier | later
  · have high := leading_lt u
    obtain ⟨low, -⟩ := leading_bounds (log_of_octave (Nat.ne_zero_of_lt earlier))
    calc (u / 2 ^ octave u + 1) * 2 ^ octave u
      _ ≤ 256 * 2 ^ octave u := Nat.mul_le_mul_right _ high
      _ = 128 * 2 ^ (octave u + 1) := by rw [pow_succ]; ring
      _ ≤ 128 * 2 ^ octave v := Nat.mul_le_mul_left _ (Nat.pow_le_pow_right (by decide) earlier)
      _ ≤ (v / 2 ^ octave v + 1) * 2 ^ octave v := Nat.mul_le_mul_right _ (by omega)
  · rw [Nat.le_antisymm (octave_mono le) later]
    exact Nat.mul_le_mul_right _ (Nat.succ_le_succ (Nat.div_le_div_right le))

/-- A value is reported from above, to a part in 128, and exactly in the exact region. -/
theorem bucketTop_spec (v : Nat) : v ≤ bucketTop v ∧ 128 * (bucketTop v - v) ≤ v ∧ (v < 256 → bucketTop v = v) := by
  unfold bucketTop
  have split := Nat.div_add_mod v (2 ^ octave v)
  have small := Nat.mod_lt v (Nat.two_pow_pos (octave v))
  have top : (v / 2 ^ octave v + 1) * 2 ^ octave v = 2 ^ octave v * (v / 2 ^ octave v) + 2 ^ octave v := by ring
  rw [top]
  rcases Nat.lt_or_ge v 256 with low | log
  · rw [octave_of_exact low, pow_zero, Nat.div_one]
    omega
  · obtain ⟨-, least, -⟩ := octave_bounds log
    exact ⟨by omega, by omega, fun low => absurd low (Nat.not_lt_of_le log)⟩

end Bucket

theorem index_eq (v : UInt64) : index v = bucket v.toNat := by
  unfold index bucket
  rw [kLinear_eq, kHalf_eq]
  split
  · rename_i linear
    rw [octave_of_exact linear, Nat.mul_zero, Nat.zero_add, pow_zero, Nat.div_one]
  · rename_i log
    have log := Nat.le_of_not_lt log
    obtain ⟨first, -, -⟩ := octave_bounds log
    obtain ⟨low, -⟩ := leading_bounds log
    have shift : v.toNat.size - 1 - (kSubBits - 1) = octave v.toNat := by
      rw [octave, kSubBits]
      omega
    dsimp only
    rw [shift, Nat.shiftRight_eq_div_pow]
    omega

theorem bucket_lt {v : Nat} (bound : v < 2 ^ 64) : bucket v < kBuckets := by
  have few := octave_le bound
  have leading := leading_lt v
  rw [bucket, kBuckets_eq]
  omega

theorem index_lt (v : UInt64) : index v < kBuckets := (index_eq v).trans_lt (bucket_lt v.toNat_lt)

section Bounds

variable {v : Nat} (bound : v < 2 ^ 64)
include bound

/-- The octave and the leading bits, read back from the number of the bucket. -/
theorem bucket_parts (log : 256 ≤ v) : ¬ bucket v < kLinear ∧ (bucket v - kLinear) / kHalf + 1 = octave v ∧
    kHalf + (bucket v - kLinear) % kHalf = v / 2 ^ octave v ∧ (UInt64.ofNat (octave v)).toNat % 64 = octave v := by
  obtain ⟨first, -, -⟩ := octave_bounds log
  obtain ⟨least, greatest⟩ := leading_bounds log
  have few := octave_le bound
  have count : (UInt64.ofNat (octave v)).toNat = octave v := UInt64.toNat_ofNat_of_lt' (by rw [UInt64.size]; omega)
  rw [kLinear_eq, kHalf_eq, bucket, count]
  refine ⟨by omega, by omega, by omega, by omega⟩

theorem lowerBound_bucket : (lowerBound (bucket v)).toNat = v / 2 ^ octave v * 2 ^ octave v := by
  rcases Nat.lt_or_ge v 256 with low | log
  · rw [lowerBound, bucket, octave_of_exact low, pow_zero, Nat.div_one, Nat.mul_zero, Nat.zero_add, kLinear_eq, if_pos low,
      Nat.mul_one]
    exact UInt64.toNat_ofNat_of_lt' bound
  · obtain ⟨notLinear, shift, leading, count⟩ := bucket_parts bound log
    have high := leading_lt v
    have below := Nat.div_mul_le_self v (2 ^ octave v)
    have number : (UInt64.ofNat (v / 2 ^ octave v)).toNat = v / 2 ^ octave v :=
      UInt64.toNat_ofNat_of_lt' (by rw [UInt64.size]; omega)
    rw [lowerBound, if_neg notLinear]
    dsimp only
    rw [shift, leading, UInt64.toNat_shiftLeft, number, count, Nat.shiftLeft_eq]
    exact Nat.mod_eq_of_lt (below.trans_lt bound)

theorem upperBound_bucket : (upperBound (bucket v)).toNat = bucketTop v := by
  rcases Nat.lt_or_ge v 256 with low | log
  · rw [upperBound, bucket, bucketTop, octave_of_exact low, pow_zero, Nat.div_one, Nat.mul_zero, Nat.zero_add, kLinear_eq,
      if_pos low, Nat.mul_one, Nat.add_sub_cancel]
    exact UInt64.toNat_ofNat_of_lt' bound
  · obtain ⟨notLinear, shift, leading, count⟩ := bucket_parts bound log
    have high := leading_lt v
    have inside : (v / 2 ^ octave v + 1) * 2 ^ octave v ≤ 2 ^ 64 := by
      calc (v / 2 ^ octave v + 1) * 2 ^ octave v
        _ ≤ 2 ^ 8 * 2 ^ 56 := Nat.mul_le_mul (by omega) (Nat.pow_le_pow_right (by decide) (octave_le bound))
        _ = 2 ^ 64 := by rw [← pow_add]
    have positive : 0 < (v / 2 ^ octave v + 1) * 2 ^ octave v := Nat.mul_pos (Nat.succ_pos _) (Nat.two_pow_pos _)
    have number : (UInt64.ofNat (v / 2 ^ octave v + 1)).toNat = v / 2 ^ octave v + 1 :=
      UInt64.toNat_ofNat_of_lt' (by rw [UInt64.size]; omega)
    have one : (1 : UInt64).toNat = 1 := rfl
    rw [upperBound, if_neg notLinear]
    dsimp only
    rw [shift, leading, UInt64.toNat_sub, UInt64.toNat_shiftLeft, number, count, Nat.shiftLeft_eq, one, bucketTop]
    generalize (v / 2 ^ octave v + 1) * 2 ^ octave v = x at *
    omega

/-- A value lies between the bounds of its bucket. -/
theorem bounds_spec : (lowerBound (bucket v)).toNat ≤ v ∧ v ≤ (upperBound (bucket v)).toNat := by
  rw [lowerBound_bucket bound, upperBound_bucket bound]
  exact ⟨Nat.div_mul_le_self .., (bucketTop_spec v).1⟩

end Bounds

end LatencyHistogram

open LatencyHistogram

structure LatencyHistogram where
  counts : Vector UInt64 kBuckets := .replicate kBuckets 0
  count_ : UInt64 := 0
  sum_ : UInt64 := 0
  min_ : UInt64 := .ofNat (2 ^ 64 - 1)
  max_ : UInt64 := 0

namespace LatencyHistogram

def record (h : LatencyHistogram) (v : UInt64) : LatencyHistogram where
  counts := h.counts.set (index v) (h.counts.get ⟨index v, index_lt v⟩ + 1) (index_lt v)
  count_ := h.count_ + 1
  min_ := if v < h.min_ then v else h.min_
  max_ := if h.max_ < v then v else h.max_
  sum_ := h.sum_ + v

def merge (h o : LatencyHistogram) : LatencyHistogram where
  counts := h.counts.zipWith (· + ·) o.counts
  count_ := h.count_ + o.count_
  sum_ := h.sum_ + o.sum_
  min_ := if o.count_ ≠ 0 ∧ o.min_ < h.min_ then o.min_ else h.min_
  max_ := if h.max_ < o.max_ then o.max_ else h.max_

def count (h : LatencyHistogram) : UInt64 := h.count_

def min (h : LatencyHistogram) : UInt64 := if h.count_ ≠ 0 then h.min_ else 0

def max (h : LatencyHistogram) : UInt64 := h.max_

/-- The loop of `percentile` over the counters from bucket `i` on, for the rank `target`. -/
def scanFrom (h : LatencyHistogram) (target : UInt64) : List UInt64 → Nat → UInt64 → UInt64
  | [], _, _ => h.max_
  | n :: counts, i, cum =>
    let cum := cum + n
    if target ≤ cum then
      let hi := upperBound i
      if hi < h.max_ then hi else h.max_
    else h.scanFrom target counts (i + 1) cum

def percentileAt (h : LatencyHistogram) (target : UInt64) : UInt64 := h.scanFrom target h.counts.toList 0 0

end LatencyHistogram

end Itch
