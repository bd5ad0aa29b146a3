import Itch.CtrlGroupSwar
import Itch.Lib.Borrow
import Mathlib.Data.List.Sort

namespace Itch

/-- The slots whose tags satisfy `p`, in ascending order. -/
def slotsWhere (p : UInt8 → Bool) (ctrl : List UInt8) : List Nat :=
  (List.range ctrl.length).filter fun i => ctrl[i]?.any p

theorem mem_slotsWhere {p : UInt8 → Bool} {ctrl : List UInt8} {i : Nat} :
    i ∈ slotsWhere p ctrl ↔ ∃ tag, ctrl[i]? = some tag ∧ p tag := by
  simp only [slotsWhere, List.mem_filter, List.mem_range, Option.any_eq_true, and_iff_right_iff_imp]
  rintro ⟨tag, found, -⟩
  exact (List.getElem?_eq_some_iff.mp found).1

theorem slotsWhere_sorted (p : UInt8 → Bool) (ctrl : List UInt8) : (slotsWhere p ctrl).Pairwise (· < ·) :=
  List.pairwise_lt_range.filter _

namespace GroupSwar

open BitScan Borrow

/-- The bits of a mask are at least eight apart. -/
theorem lanes_sorted (w : UInt64) : (⟨w &&& kMsbs⟩ : BitMask 3).lanes.Pairwise (· < ·) := by
  have last : ∀ j ∈ scan (w &&& kMsbs).toNat, j % 8 = 7 := by
    intro j member
    have bit := (mem_scan (w &&& kMsbs).toNat_lt j).mp member
    rw [UInt64.toNat_and, Nat.testBit_and, Bool.and_eq_true, testBit_kMsbs] at bit
    exact bit.2.2
  rw [BitMask.lanes, List.pairwise_map]
  refine (scan_sorted (w &&& kMsbs).toNat_lt).imp_of_mem ?_
  intro j k first second less
  have atFirst := last j first
  have atSecond := last k second
  simp only [Nat.shiftRight_eq_div_pow]
  omega

section Exact

variable {ctrl : List UInt8} (length : ctrl.length = 8) (valid : ∀ tag ∈ ctrl, ValidTag tag)
include length valid

theorem matchEmpty_lanes : (matchEmpty ctrl).lanes = slotsWhere (· = kCtrlEmpty) ctrl := by
  refine (lanes_sorted _).eq_of_mem_iff (slotsWhere_sorted _ _) ?_
  intro i
  refine (groupSwar.empty_lanes ctrl i length valid).trans ?_
  simp [mem_slotsWhere]

theorem matchEmptyOrDeleted_lanes :
    (matchEmptyOrDeleted ctrl).lanes = slotsWhere (fun tag => tag = kCtrlEmpty ∨ tag = kCtrlDeleted) ctrl := by
  refine (lanes_sorted _).eq_of_mem_iff (slotsWhere_sorted _ _) ?_
  intro i
  refine (groupSwar.free_lanes ctrl i length).trans ?_
  simp only [mem_slotsWhere, decide_eq_true_eq]
  refine exists_congr fun tag => and_congr_right fun found => ?_
  constructor
  · intro free
    rcases valid tag (List.mem_of_getElem? found) with full | deleted | empty
    · exact absurd free (UInt8.not_le.mpr full)
    · exact .inr deleted
    · exact .inl empty
  · rintro (rfl | rfl)
    · decide
    · decide

end Exact

theorem digit_byte (n i : Nat) : digit 256 n i = n / 2 ^ (8 * i) % 2 ^ 8 := by
  rw [digit, pow_mul]
  rfl

theorem sign_digit (n i : Nat) : n.testBit (8 * i + 7) ↔ 128 ≤ digit 256 n i := by
  rw [digit_byte, Nat.testBit_eq_decide_div_mod_eq, decide_eq_true_eq, Nat.pow_add, ← Nat.div_div_eq_div_mul]
  omega

theorem digit_kLsbs {i : Nat} (inside : i < 8) : digit 256 kLsbs.toNat i = 1 := by
  have digits : ∀ i < 8, digit 256 kLsbs.toNat i = 1 := by decide
  exact digits i inside

/-- The sign bits that the zero test leaves are the borrows out of the bytes. -/
theorem zero_test {x : UInt64} {i : Nat} (inside : i < 8) :
    ((x - kLsbs) &&& ~~~x).toNat.testBit (8 * i + 7) ↔ Borrows 256 x.toNat kLsbs.toNat (i + 1) := by
  have word := x.toNat_lt
  have lsbs : kLsbs.toNat < 2 ^ 64 := kLsbs.toNat_lt
  have sum : (x - kLsbs).toNat + kLsbs.toNat ≡ x.toNat [MOD 256 ^ (i + 1)] := by
    have whole : (x - kLsbs).toNat + kLsbs.toNat ≡ x.toNat [MOD 256 ^ 8] := by
      rw [UInt64.toNat_sub, Nat.ModEq]
      omega
    exact whole.of_dvd (pow_dvd_pow 256 inside)
  have byte := digit_difference (by omega) sum
  have small := digit_lt (show 0 < 256 by omega) x.toNat i
  rw [UInt64.toNat_and, Nat.testBit_and, testBit_not (by omega), Bool.and_eq_true, Bool.not_eq_true', sign_digit, byte,
    ← Bool.not_eq_true, sign_digit, borrows_succ (by omega), digit_kLsbs inside]
  split
  · rename_i borrows
    simp only [borrows, and_true]
    omega
  · rename_i free
    simp only [free, and_false, or_false]
    omega

/-- The slots that `matchTag` offers: those with the tag `h2`, and those with the
neighbouring tag `h2 ^^^ 1` right above an offered one. -/
inductive Offered (ctrl : List UInt8) (h2 : UInt8) : Nat → Prop
  | same {i} : ctrl[i]? = some h2 → Offered ctrl h2 i
  | above {i} : Offered ctrl h2 i → ctrl[i + 1]? = some (h2 ^^^ 1) → Offered ctrl h2 (i + 1)

section Match

variable {ctrl : List UInt8} {h2 : UInt8}

theorem xor_eq_zero {tag : UInt8} : (tag ^^^ h2).toNat = 0 ↔ tag = h2 := by
  rw [← UInt8.toNat_zero, UInt8.toNat_inj, UInt8.xor_eq_zero_iff]

theorem xor_eq_one {tag : UInt8} : (tag ^^^ h2).toNat = 1 ↔ tag = h2 ^^^ 1 := by
  rw [← UInt8.toNat_one, UInt8.toNat_inj]
  constructor
  · intro one
    rw [← one, UInt8.xor_comm, UInt8.xor_assoc, UInt8.xor_self, UInt8.xor_zero]
  · rintro rfl
    rw [UInt8.xor_comm, ← UInt8.xor_assoc, UInt8.xor_self, UInt8.zero_xor]

theorem xor_one_ne (h2 : UInt8) : h2 ^^^ 1 ≠ h2 := by
  intro same
  have one := xor_eq_one.mpr same.symm
  rw [UInt8.xor_self] at one
  cases one

theorem Offered.inside {i : Nat} (offered : Offered ctrl h2 i) : i < ctrl.length := by
  cases offered with
  | same found => exact (List.getElem?_eq_some_iff.mp found).1
  | above _ found => exact (List.getElem?_eq_some_iff.mp found).1

/-- Below an offered slot there is one with the tag itself, and only the neighbouring tag in between. -/
theorem Offered.run {i : Nat} (offered : Offered ctrl h2 i) :
    ∃ j ≤ i, ctrl[j]? = some h2 ∧ ∀ k, j < k → k ≤ i → ctrl[k]? = some (h2 ^^^ 1) := by
  induction offered with
  | same found => exact ⟨_, Nat.le_refl _, found, fun k above within => absurd within (Nat.not_le_of_lt above)⟩
  | @above i below found ih =>
    obtain ⟨j, le, start, between⟩ := ih
    refine ⟨j, Nat.le_succ_of_le le, start, ?_⟩
    intro k above within
    rcases Nat.lt_or_eq_of_le within with lower | rfl
    · exact between k above (Nat.le_of_lt_succ lower)
    · exact found

variable (length : ctrl.length = 8)
include length

theorem digit_difference_tag {i : Nat} {tag : UInt8} (found : ctrl[i]? = some tag) :
    digit 256 (load ctrl ^^^ kLsbs * h2.toUInt64).toNat i = (tag ^^^ h2).toNat := by
  rw [digit_byte, UInt64.toNat_xor, broadcast, load_toNat length, Nat.xor_div_two_pow, Nat.xor_mod_two_pow,
    byte_loadLe found, byte_loadLe (replicate_lane (lane_lt length found) h2), UInt8.toNat_xor]

/-- A byte borrows exactly if its slot is offered, by induction on the bytes below. -/
theorem borrows_iff_offered {i : Nat} (inside : i < 8) :
    Borrows 256 (load ctrl ^^^ kLsbs * h2.toUInt64).toNat kLsbs.toNat (i + 1) ↔ Offered ctrl h2 i := by
  induction i with
  | zero =>
    obtain ⟨tag, found⟩ := lane_exists length inside
    have start := not_borrows_zero 256 (load ctrl ^^^ kLsbs * h2.toUInt64).toNat kLsbs.toNat
    rw [borrows_succ (by omega), digit_kLsbs inside, digit_difference_tag length found, Nat.lt_one_iff, xor_eq_zero]
    simp only [start, and_false, or_false]
    constructor
    · rintro rfl
      exact .same found
    · intro offered
      cases offered with
      | same found' => exact Option.some.inj (found.symm.trans found')
  | succ i ih =>
    obtain ⟨tag, found⟩ := lane_exists length inside
    rw [borrows_succ (by omega), digit_kLsbs inside, digit_difference_tag length found, Nat.lt_one_iff, xor_eq_zero,
      xor_eq_one, ih (by omega)]
    constructor
    · rintro (rfl | ⟨rfl, below⟩)
      · exact .same found
      · exact .above below found
    · intro offered
      cases offered with
      | same found' => exact .inl (Option.some.inj (found.symm.trans found'))
      | above below found' => exact .inr ⟨Option.some.inj (found.symm.trans found'), below⟩

theorem mem_matchTag {i : Nat} : i ∈ (matchTag ctrl h2).lanes ↔ Offered ctrl h2 i := by
  constructor
  · intro member
    obtain ⟨inside, bit⟩ := (mem_lanes _ i).mp member
    exact (borrows_iff_offered length inside).mp ((zero_test inside).mp bit)
  · intro offered
    have inside : i < 8 := length ▸ offered.inside
    exact (mem_lanes _ i).mpr ⟨inside, (zero_test inside).mpr ((borrows_iff_offered length inside).mpr offered)⟩

end Match

/-- What a group says of its bytes one by one. -/
structure ByteWise (ctrl : List UInt8) (h2 : UInt8) : Prop where
  empty : (matchEmpty ctrl).lanes = slotsWhere (· = kCtrlEmpty) ctrl
  free : (matchEmptyOrDeleted ctrl).lanes = slotsWhere (fun tag => tag = kCtrlEmpty ∨ tag = kCtrlDeleted) ctrl
  same : ∀ i, ctrl[i]? = some h2 → i ∈ (matchTag ctrl h2).lanes
  full : ∀ i ∈ (matchTag ctrl h2).lanes, ctrl[i]? ≠ some h2 → ∃ tag, ctrl[i]? = some tag ∧ tag < 0x80
  above : ∀ i ∈ (matchTag ctrl h2).lanes, ctrl[i]? ≠ some h2 → ∃ j, i = j + 1 ∧ ctrl[j]? = some h2

/-- A borrow that goes on for two slots: the neighbouring tag twice, right above `h2`. -/
def LongBorrow (ctrl : List UInt8) (h2 : UInt8) : Prop :=
  ∃ i, ctrl[i]? = some h2 ∧ ctrl[i + 1]? = some (h2 ^^^ 1) ∧ ctrl[i + 2]? = some (h2 ^^^ 1)

theorem byteWise_iff {ctrl : List UInt8} {h2 : UInt8} (length : ctrl.length = 8) (valid : ∀ tag ∈ ctrl, ValidTag tag)
    (fragment : h2 < 0x80) : ByteWise ctrl h2 ↔ ¬ LongBorrow ctrl h2 := by
  constructor
  · rintro bytes ⟨i, start, first, second⟩
    have offered : Offered ctrl h2 (i + 2) := .above (.above (.same start) first) second
    have other : ctrl[i + 2]? ≠ some h2 := by
      rw [second]
      exact fun same => xor_one_ne h2 (Option.some.inj same)
    obtain ⟨j, next, below⟩ := bytes.above (i + 2) ((mem_matchTag length).mpr offered) other
    have here : j = i + 1 := by omega
    rw [here, first] at below
    exact xor_one_ne h2 (Option.some.inj below)
  · intro short
    refine ⟨matchEmpty_lanes length valid, matchEmptyOrDeleted_lanes length valid, ?_, ?_, ?_⟩
    · intro i found
      exact (mem_matchTag length).mpr (.same found)
    · intro i member _
      exact groupSwar.candidate_full ctrl h2 i length fragment member
    · intro i member other
      obtain ⟨j, le, start, between⟩ := ((mem_matchTag length).mp member).run
      rcases Nat.lt_trichotomy i (j + 1) with here | next | far
      · have same : j = i := by omega
        exact absurd (same ▸ start) other
      · exact ⟨j, next, start⟩
      · exact absurd ⟨j, start, between (j + 1) (by omega) (by omega), between (j + 2) (by omega) (by omega)⟩ short

/-- The bytes of the test of false positives. -/
theorem byteWise_borrow_above_match :
    (∀ tag ∈ [0x00, 0x01, 0x05, 0x7F, 0x10, 0x11, 0x00, 0x01], ValidTag tag) ∧
      (ByteWise [0x00, 0x01, 0x05, 0x7F, 0x10, 0x11, 0x00, 0x01] 0x00 ↔
        ¬ LongBorrow [0x00, 0x01, 0x05, 0x7F, 0x10, 0x11, 0x00, 0x01] 0x00) := by
  have valid : ∀ tag ∈ [0x00, 0x01, 0x05, 0x7F, 0x10, 0x11, 0x00, 0x01], ValidTag tag := by
    unfold ValidTag
    decide +kernel
  exact ⟨valid, byteWise_iff rfl valid (by decide)⟩

/-- Slot 2 is offered for the tag 0, and below it lies another false positive. -/
theorem not_byteWise_long_borrow :
    (∀ tag ∈ [0x00, 0x01, 0x01, 0x7F, 0x10, 0x11, 0xFF, 0x80], ValidTag tag) ∧
      2 ∈ (matchTag [0x00, 0x01, 0x01, 0x7F, 0x10, 0x11, 0xFF, 0x80] 0x00).lanes ∧
      ¬ ByteWise [0x00, 0x01, 0x01, 0x7F, 0x10, 0x11, 0xFF, 0x80] 0x00 := by
  have offered : 2 ∈ (matchTag [0x00, 0x01, 0x01, 0x7F, 0x10, 0x11, 0xFF, 0x80] 0x00).lanes := by
    decide +kernel
  refine ⟨by unfold ValidTag; decide +kernel, offered, ?_⟩
  intro bytes
  obtain ⟨j, next, below⟩ := bytes.above 2 offered (by decide)
  cases next
  cases below

end GroupSwar

end Itch
