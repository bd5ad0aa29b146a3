import Itch.Histogram
import Itch.Lib.Ranks
import Mathlib.Data.List.Perm.Basic

namespace Itch

open LatencyHistogram (index index_eq index_lt kBuckets bucket bucketTop upperBound)

/-- Samples recorded into any number of histograms that are merged in any order. -/
inductive Recording where
  | empty
  | record (r : Recording) (v : UInt64)
  | merge (r o : Recording)

namespace Recording

def samples : Recording → List UInt64
  | empty => []
  | record r v => v :: r.samples
  | merge r o => r.samples ++ o.samples

def histogram : Recording → LatencyHistogram
  | empty => {}
  | record r v => r.histogram.record v
  | merge r o => r.histogram.merge o.histogram

end Recording

/-- All samples recorded into one histogram. -/
def recordAll (xs : List UInt64) : LatencyHistogram := xs.foldl LatencyHistogram.record {}

section Words

variable {m : Nat} (bound : m < 2 ^ 64) (a : UInt64)
include bound

theorem ite_lt_ofNat : (if a < .ofNat m then a else .ofNat m) = UInt64.ofNat (min a.toNat m) := by
  have number : (UInt64.ofNat m).toNat = m := UInt64.toNat_ofNat_of_lt' bound
  simp only [UInt64.lt_iff_toNat_lt, number]
  split
  · rename_i less
    rw [min_eq_left less.le, UInt64.ofNat_toNat]
  · rename_i more
    rw [min_eq_right (Nat.le_of_not_lt more)]

theorem ite_ofNat_lt : (if UInt64.ofNat m < a then a else .ofNat m) = UInt64.ofNat (max a.toNat m) := by
  have number : (UInt64.ofNat m).toNat = m := UInt64.toNat_ofNat_of_lt' bound
  simp only [UInt64.lt_iff_toNat_lt, number]
  split
  · rename_i more
    rw [max_eq_left more.le, UInt64.ofNat_toNat]
  · rename_i less
    rw [max_eq_right (Nat.le_of_not_lt less)]

end Words

/-- The least sample, and the greatest, with the values of an empty histogram. -/
def least (xs : List UInt64) : Nat := (xs.map UInt64.toNat).foldr min (2 ^ 64 - 1)

def greatest (xs : List UInt64) : Nat := (xs.map UInt64.toNat).foldr max 0

/-- What a histogram of `xs` holds. -/
def tally (xs : List UInt64) : LatencyHistogram where
  counts := .ofFn fun i => .ofNat (xs.countP fun v => index v = i)
  count_ := .ofNat xs.length
  sum_ := .ofNat (xs.map UInt64.toNat).sum
  min_ := .ofNat (least xs)
  max_ := .ofNat (greatest xs)

section Tally

variable {xs ys : List UInt64}

theorem least_lt (xs : List UInt64) : least xs < 2 ^ 64 := by
  induction xs with
  | nil => decide
  | cons v xs ih => exact (min_le_right _ _).trans_lt ih

theorem greatest_lt (xs : List UInt64) : greatest xs < 2 ^ 64 := by
  induction xs with
  | nil => decide
  | cons v xs ih => exact max_lt v.toNat_lt ih

theorem least_append (xs ys : List UInt64) : least (xs ++ ys) = min (least ys) (least xs) := by
  induction xs with
  | nil => exact (min_eq_left (Nat.le_sub_one_of_lt (least_lt ys))).symm
  | cons v xs ih => exact (congrArg (min v.toNat) ih).trans (min_left_comm ..)

theorem greatest_append (xs ys : List UInt64) : greatest (xs ++ ys) = max (greatest ys) (greatest xs) := by
  induction xs with
  | nil => exact (max_eq_left (Nat.zero_le _)).symm
  | cons v xs ih => exact (congrArg (max v.toNat) ih).trans (max_left_comm ..)

theorem le_greatest {v : UInt64} (member : v ∈ xs) : v.toNat ≤ greatest xs := by
  induction xs with
  | nil => cases member
  | cons w xs ih =>
    rcases List.mem_cons.mp member with rfl | later
    · exact le_max_left ..
    · exact (ih later).trans (le_max_right ..)

/-- The order of the samples does not matter. -/
theorem tally_perm (perm : xs.Perm ys) : tally xs = tally ys := by
  have numbers := perm.map UInt64.toNat
  have same : (fun i : Fin kBuckets => UInt64.ofNat (xs.countP fun v => index v = i)) =
      fun i => .ofNat (ys.countP fun v => index v = i) := funext fun i => by rw [perm.countP_eq]
  rw [tally, tally, same, perm.length_eq, numbers.sum_nat, least, least, numbers.foldr_eq, greatest, greatest, numbers.foldr_eq]

theorem tally_nil : tally [] = {} := by
  have zeros : (Vector.ofFn fun _ : Fin kBuckets => (0 : UInt64)) = .replicate kBuckets 0 := by
    refine Vector.ext fun i inside => ?_
    rw [Vector.getElem_ofFn, Vector.getElem_replicate]
  rw [← zeros]
  rfl

theorem tally_counts (xs : List UInt64) {i : Nat} (inside : i < kBuckets) :
    (tally xs).counts[i] = UInt64.ofNat (xs.countP fun v => index v = i) := Vector.getElem_ofFn inside

theorem tally_record (v : UInt64) : (tally xs).record v = tally (v :: xs) := by
  have counts : (tally xs).counts.set (index v) ((tally xs).counts.get ⟨index v, index_lt v⟩ + 1) (index_lt v) =
      (tally (v :: xs)).counts := by
    refine Vector.ext fun i inside => ?_
    rw [Vector.getElem_set, tally_counts, tally_counts, List.countP_cons, UInt64.ofNat_add]
    split
    · rename_i here
      subst here
      change (tally xs).counts[index v] + 1 = _
      rw [if_pos (decide_eq_true rfl), tally_counts]
      rfl
    · rename_i other
      rw [if_neg (by simpa using other)]
      exact (UInt64.add_zero _).symm
  have min : (if v < (tally xs).min_ then v else (tally xs).min_) = (tally (v :: xs)).min_ := ite_lt_ofNat (least_lt xs) v
  have max : (if (tally xs).max_ < v then v else (tally xs).max_) = (tally (v :: xs)).max_ := ite_ofNat_lt (greatest_lt xs) v
  have count : (tally xs).count_ + 1 = (tally (v :: xs)).count_ := (UInt64.ofNat_add ..).symm
  have sum : (tally xs).sum_ + v = (tally (v :: xs)).sum_ := by
    change UInt64.ofNat _ + v = UInt64.ofNat ((v :: xs).map UInt64.toNat).sum
    rw [List.map_cons, List.sum_cons, UInt64.ofNat_add, UInt64.ofNat_toNat, UInt64.add_comm]
  rw [LatencyHistogram.record, counts, min, max, count, sum]

theorem tally_merge (few : ys.length < 2 ^ 64) : (tally xs).merge (tally ys) = tally (xs ++ ys) := by
  have counts : (tally xs).counts.zipWith (· + ·) (tally ys).counts = (tally (xs ++ ys)).counts := by
    refine Vector.ext fun i inside => ?_
    rw [Vector.getElem_zipWith, tally_counts, tally_counts, tally_counts, List.countP_append, UInt64.ofNat_add]
  have count : (tally xs).count_ + (tally ys).count_ = (tally (xs ++ ys)).count_ := by
    change _ = UInt64.ofNat (xs ++ ys).length
    rw [List.length_append, UInt64.ofNat_add]
    rfl
  have sum : (tally xs).sum_ + (tally ys).sum_ = (tally (xs ++ ys)).sum_ := by
    change _ = UInt64.ofNat ((xs ++ ys).map UInt64.toNat).sum
    rw [List.map_append, List.sum_append, UInt64.ofNat_add]
    rfl
  have max : (if (tally xs).max_ < (tally ys).max_ then (tally ys).max_ else (tally xs).max_) = (tally (xs ++ ys)).max_ := by
    have both := ite_ofNat_lt (greatest_lt xs) (.ofNat (greatest ys))
    rw [UInt64.toNat_ofNat_of_lt' (greatest_lt ys), ← greatest_append] at both
    exact both
  have min : (if (tally ys).count_ ≠ 0 ∧ (tally ys).min_ < (tally xs).min_ then (tally ys).min_ else (tally xs).min_) =
      (tally (xs ++ ys)).min_ := by
    have both := ite_lt_ofNat (least_lt xs) (.ofNat (least ys))
    rw [UInt64.toNat_ofNat_of_lt' (least_lt ys), ← least_append] at both
    cases ys with
    | nil =>
      rw [if_neg fun some => some.1 rfl, List.append_nil]
    | cons y ys =>
      have some : (tally (y :: ys)).count_ ≠ 0 := by
        intro none
        have zero : (UInt64.ofNat (y :: ys).length).toNat = 0 := congrArg UInt64.toNat none
        rw [UInt64.toNat_ofNat_of_lt' few] at zero
        cases zero
      simp only [ne_eq, some, not_false_eq_true, true_and]
      exact both
  rw [LatencyHistogram.merge, counts, count, sum, min, max]

/-- However the samples are split and merged, the histogram is that of all samples. -/
theorem Recording.histogram_eq (r : Recording) (few : r.samples.length < 2 ^ 64) : r.histogram = tally r.samples := by
  induction r with
  | empty => exact tally_nil.symm
  | record r v ih => rw [histogram, ih ((Nat.lt_succ_self _).trans few), tally_record, samples]
  | merge r o ih ih' =>
    rw [samples, List.length_append] at few
    rw [histogram, ih (by omega), ih' (by omega), tally_merge (by omega), samples]

theorem recordAll_eq (xs : List UInt64) : recordAll xs = tally xs := by
  have from_ : ∀ ys : List UInt64, xs.foldl LatencyHistogram.record (tally ys) = tally (xs.reverse ++ ys) := by
    induction xs with
    | nil => exact fun ys => rfl
    | cons v xs ih =>
      intro ys
      rw [List.foldl_cons, tally_record, ih, List.reverse_cons, List.append_assoc]
      rfl
  rw [recordAll, ← tally_nil, from_, List.append_nil]
  exact tally_perm (List.reverse_perm xs)

end Tally

section Percentile

variable {xs : List UInt64} {k : Nat}

/-- The `k`-th smallest sample. -/
def sample (xs : List UInt64) (k : Nat) : Nat := Ranks.kth (xs.map UInt64.toNat) k

/-- The samples in the buckets before `i`. -/
def below (xs : List UInt64) (i : Nat) : Nat := xs.countP fun v => index v < i

theorem below_zero (xs : List UInt64) : below xs 0 = 0 := List.countP_eq_zero.mpr fun v _ => by simp

theorem below_le (xs : List UInt64) (i : Nat) : below xs i ≤ xs.length := List.countP_le_length

theorem below_succ (xs : List UInt64) (i : Nat) : below xs (i + 1) = below xs i + xs.countP fun v => index v = i := by
  induction xs with
  | nil => rfl
  | cons v xs ih =>
    simp only [below, List.countP_cons] at ih ⊢
    rw [ih]
    simp only [decide_eq_true_eq]
    split <;> split <;> split <;> omega

section Rank

variable (positive : 1 ≤ k) (inside : k ≤ xs.length)
include positive inside

theorem sample_mem : ∃ v ∈ xs, v.toNat = sample xs k :=
  List.mem_map.mp (Ranks.kth_mem positive (by rwa [List.length_map]))

theorem sample_lt : sample xs k < 2 ^ 64 := by
  obtain ⟨v, -, same⟩ := sample_mem positive inside
  exact same ▸ v.toNat_lt

/-- The first buckets hold `k` samples if and only if they hold the `k`-th smallest. -/
theorem le_below_iff (i : Nat) : k ≤ below xs i ↔ bucket (sample xs k) < i := by
  have numbers : k ≤ (xs.map UInt64.toNat).length := by rwa [List.length_map]
  have rank := Ranks.le_countP_iff (p := fun n => bucket n < i) positive numbers
    fun a b le later => decide_eq_true ((LatencyHistogram.bucket_mono le).trans_lt (of_decide_eq_true later))
  rw [List.countP_map, decide_eq_true_eq] at rank
  rw [sample, ← rank, below]
  simp only [index_eq]
  rfl

variable (few : xs.length < 2 ^ 64)
include few

/-- The scan stops at the bucket of the `k`-th smallest sample. -/
theorem scanFrom_eq {i : Nat} (before : i ≤ bucket (sample xs k)) :
    (tally xs).scanFrom (.ofNat k) ((tally xs).counts.toList.drop i) i (.ofNat (below xs i)) =
      if upperBound (bucket (sample xs k)) < (tally xs).max_ then upperBound (bucket (sample xs k)) else (tally xs).max_ := by
  have last := LatencyHistogram.bucket_lt (sample_lt positive inside)
  have length : (tally xs).counts.toList.length = kBuckets := Vector.length_toList
  generalize rest : (tally xs).counts.toList.drop i = counts
  induction counts generalizing i with
  | nil =>
    have none := List.drop_eq_nil_iff.mp rest
    omega
  | cons n counts ih =>
    have here : n = .ofNat (xs.countP fun v => index v = i) := by
      have first := congrArg List.head? rest
      rw [List.head?_drop, List.getElem?_eq_getElem (by omega), Vector.getElem_toList, tally_counts] at first
      exact (Option.some.inj first).symm
    have cum : UInt64.ofNat (below xs i) + n = .ofNat (below xs (i + 1)) := by rw [here, ← UInt64.ofNat_add, ← below_succ]
    have reached : UInt64.ofNat k ≤ .ofNat (below xs (i + 1)) ↔ bucket (sample xs k) < i + 1 := by
      have all := below_le xs (i + 1)
      rw [UInt64.le_iff_toNat_le, UInt64.toNat_ofNat_of_lt' (inside.trans_lt few), UInt64.toNat_ofNat_of_lt' (all.trans_lt few),
        le_below_iff positive inside]
    rw [LatencyHistogram.scanFrom]
    dsimp only
    rw [cum]
    by_cases stop : bucket (sample xs k) < i + 1
    · have at_ : bucket (sample xs k) = i := Nat.le_antisymm (Nat.le_of_lt_succ stop) before
      rw [if_pos (reached.mpr stop), at_]
    · have next : (tally xs).counts.toList.drop (i + 1) = counts := by rw [← List.tail_drop, rest, List.tail_cons]
      rw [if_neg (mt reached.mp stop)]
      exact ih (Nat.le_of_not_lt stop) next

/-- The value for a rank is the top of the bucket of its sample, but no more than the maximum. -/
theorem percentileAt_eq : ((tally xs).percentileAt (.ofNat k)).toNat = min (bucketTop (sample xs k)) (greatest xs) := by
  have scan := scanFrom_eq positive inside few (Nat.zero_le _)
  have top := LatencyHistogram.upperBound_bucket (sample_lt positive inside)
  have max : (tally xs).max_.toNat = greatest xs := UInt64.toNat_ofNat_of_lt' (greatest_lt xs)
  rw [below_zero, List.drop_zero] at scan
  rw [LatencyHistogram.percentileAt, ← top, ← max]
  refine (congrArg UInt64.toNat scan).trans ?_
  split
  · rename_i less
    exact (min_eq_left (UInt64.lt_iff_toNat_lt.mp less).le).symm
  · rename_i more
    exact (min_eq_right (Nat.le_of_not_lt fun less => more (UInt64.lt_iff_toNat_lt.mpr less))).symm

end Rank

end Percentile

/-- However samples are recorded and merged, the histogram is that of all samples, and the
value it gives for a rank is the sample of that rank to a part in 128, never more than the
maximum, and grows with the rank. -/
theorem Recording.percentiles (r : Recording) (few : r.samples.length < 2 ^ 64) :
    (∀ xs : List UInt64, xs.Perm r.samples → r.histogram.counts = (recordAll xs).counts ∧
      r.histogram.count = (recordAll xs).count ∧ r.histogram.min = (recordAll xs).min ∧
      r.histogram.max = (recordAll xs).max) ∧
    r.histogram.count.toNat = r.samples.length ∧
    ∀ target : UInt64, 1 ≤ target → target ≤ r.histogram.count →
      sample r.samples target.toNat ≤ (r.histogram.percentileAt target).toNat ∧
      r.histogram.percentileAt target ≤ r.histogram.max ∧
      128 * ((r.histogram.percentileAt target).toNat - sample r.samples target.toNat) ≤ sample r.samples target.toNat ∧
      (sample r.samples target.toNat < 256 → (r.histogram.percentileAt target).toNat = sample r.samples target.toNat) ∧
      ∀ target' : UInt64, target ≤ target' → target' ≤ r.histogram.count →
        r.histogram.percentileAt target ≤ r.histogram.percentileAt target' := by
  rw [r.histogram_eq few]
  have count : (tally r.samples).count.toNat = r.samples.length := UInt64.toNat_ofNat_of_lt' few
  have max : (tally r.samples).max.toNat = greatest r.samples := UInt64.toNat_ofNat_of_lt' (greatest_lt _)
  refine ⟨fun xs perm => ?_, count, fun target first last => ?_⟩
  · rw [recordAll_eq, tally_perm perm]
    exact ⟨rfl, rfl, rfl, rfl⟩
  · have value : ∀ t : UInt64, 1 ≤ t → t ≤ (tally r.samples).count → 1 ≤ t.toNat ∧ t.toNat ≤ r.samples.length ∧
        ((tally r.samples).percentileAt t).toNat = min (bucketTop (sample r.samples t.toNat)) (greatest r.samples) := by
      intro t first last
      have positive : 1 ≤ t.toNat := UInt64.le_iff_toNat_le.mp first
      have inside : t.toNat ≤ r.samples.length := count ▸ UInt64.le_iff_toNat_le.mp last
      have here := percentileAt_eq positive inside few
      rw [UInt64.ofNat_toNat] at here
      exact ⟨positive, inside, here⟩
    obtain ⟨positive, inside, here⟩ := value target first last
    obtain ⟨above, near, same⟩ := LatencyHistogram.bucketTop_spec (sample r.samples target.toNat)
    obtain ⟨v, member, is⟩ := sample_mem positive inside
    have most := le_greatest member
    rw [is] at most
    rw [UInt64.le_iff_toNat_le, max, here]
    refine ⟨le_min above most, min_le_right .., ?_, fun small => ?_, fun target' more last' => ?_⟩
    · have least : min (bucketTop (sample r.samples target.toNat)) (greatest r.samples) ≤ _ := min_le_left ..
      omega
    · rw [same small]
      exact min_eq_left most
    · obtain ⟨-, inside', here'⟩ := value target' (UInt64.le_trans first more) last'
      have ranks : sample r.samples target.toNat ≤ sample r.samples target'.toNat :=
        Ranks.kth_le_kth positive (UInt64.le_iff_toNat_le.mp more) (by rwa [List.length_map])
      rw [UInt64.le_iff_toNat_le, here, here']
      exact min_le_min_right _ (LatencyHistogram.bucketTop_mono ranks)

theorem Recording.percentiles_sample :
    sample [5, 300] 2 ≤ ((merge (record empty 5) (record empty 300)).histogram.percentileAt 2).toNat := by
  have two : (merge (record empty 5) (record empty 300)).samples.length < 2 ^ 64 := by decide
  obtain ⟨-, count, ranks⟩ := Recording.percentiles (merge (record empty 5) (record empty 300)) two
  have last : (2 : UInt64) ≤ (merge (record empty 5) (record empty 300)).histogram.count := by
    rw [UInt64.le_iff_toNat_le, count]
    decide
  exact (ranks 2 (by decide) last).1

end Itch
