import Itch.CtrlGroup

namespace Itch

/-- The bytes as one little-endian word. -/
def loadLe : List UInt8 → Nat
  | [] => 0
  | b :: bs => b.toNat + 256 * loadLe bs

theorem loadLe_lt (bytes : List UInt8) : loadLe bytes < 2 ^ (8 * bytes.length) := by
  induction bytes with
  | nil => decide
  | cons b bs ih =>
    have byte := b.toNat_lt
    rw [loadLe, List.length_cons, Nat.mul_add, Nat.pow_add, Nat.mul_one]
    omega

theorem testBit_loadLe {bytes : List UInt8} {i : Nat} {b : UInt8} (found : bytes[i]? = some b) {j : Nat}
    (inside : j < 8) : (loadLe bytes).testBit (8 * i + j) = b.toNat.testBit j := by
  induction bytes generalizing i with
  | nil => cases found
  | cons c cs ih =>
    have split : loadLe (c :: cs) = 2 ^ 8 * loadLe cs + c.toNat := by rw [loadLe]; omega
    rw [split, Nat.testBit_two_pow_mul_add _ c.toNat_lt]
    cases i with
    | zero =>
      cases found
      simp [inside]
    | succ i =>
      have beyond : ¬ 8 * (i + 1) + j < 8 := by omega
      have rest : 8 * (i + 1) + j - 8 = 8 * i + j := by omega
      rw [if_neg beyond, rest]
      exact ih found

theorem byte_loadLe {bytes : List UInt8} {i : Nat} {b : UInt8} (found : bytes[i]? = some b) :
    loadLe bytes / 2 ^ (8 * i) % 2 ^ 8 = b.toNat := by
  apply Nat.eq_of_testBit_eq
  intro j
  rw [Nat.testBit_mod_two_pow, Nat.testBit_div_two_pow]
  by_cases inside : j < 8
  · rw [Nat.add_comm, testBit_loadLe found inside]
    simp [inside]
  · have above : b.toNat < 2 ^ j := Nat.lt_of_lt_of_le b.toNat_lt (Nat.pow_le_pow_right (by decide) (by omega))
    simp [inside, Nat.testBit_lt_two_pow above]

namespace GroupSwar

def kLsbs : UInt64 := 0x0101010101010101

def kMsbs : UInt64 := 0x8080808080808080

def load (ctrl : List UInt8) : UInt64 := UInt64.ofNat (loadLe ctrl)

def matchTag (ctrl : List UInt8) (h2 : UInt8) : BitMask 3 :=
  let x := load ctrl ^^^ (kLsbs * h2.toUInt64)
  ⟨(x - kLsbs) &&& ~~~x &&& kMsbs⟩

def matchEmpty (ctrl : List UInt8) : BitMask 3 := ⟨load ctrl &&& (load ctrl <<< 1) &&& kMsbs⟩

def matchEmptyOrDeleted (ctrl : List UInt8) : BitMask 3 := ⟨load ctrl &&& kMsbs⟩

theorem testBit_kMsbs (j : Nat) : kMsbs.toNat.testBit j ↔ j < 64 ∧ j % 8 = 7 := by
  by_cases inside : j < 64
  · have bits : ∀ j < 64, (kMsbs.toNat.testBit j ↔ j % 8 = 7) := by decide
    simp [inside, bits j inside]
  · have above : kMsbs.toNat < 2 ^ j :=
      Nat.lt_of_lt_of_le kMsbs.toNat_lt (Nat.pow_le_pow_right (by decide) (by omega))
    simp [inside, Nat.testBit_lt_two_pow above]

/-- The lanes of a word masked to its sign bits. -/
theorem mem_lanes (w : UInt64) (i : Nat) :
    i ∈ (⟨w &&& kMsbs⟩ : BitMask 3).lanes ↔ i < 8 ∧ w.toNat.testBit (8 * i + 7) := by
  simp only [BitMask.mem_lanes, UInt64.toNat_and, Nat.testBit_and, Bool.and_eq_true, testBit_kMsbs,
    Nat.shiftRight_eq_div_pow]
  constructor
  · rintro ⟨j, ⟨bit, inside, last⟩, lane⟩
    have position : 8 * i + 7 = j := by omega
    exact ⟨by omega, position ▸ bit⟩
  · rintro ⟨inside, bit⟩
    exact ⟨8 * i + 7, ⟨bit, by omega, by omega⟩, by omega⟩

section Words

variable {ctrl : List UInt8} (length : ctrl.length = 8)
include length

theorem load_toNat : (load ctrl).toNat = loadLe ctrl := by
  have bound := loadLe_lt ctrl
  rw [length] at bound
  rw [load, UInt64.toNat_ofNat', Nat.mod_eq_of_lt bound]

theorem testBit_load {i : Nat} {b : UInt8} (found : ctrl[i]? = some b) {j : Nat} (inside : j < 8) :
    (load ctrl).toNat.testBit (8 * i + j) = b.toNat.testBit j := by
  rw [load_toNat length, testBit_loadLe found inside]

end Words

theorem broadcast (h2 : UInt8) : (kLsbs * h2.toUInt64).toNat = loadLe (List.replicate 8 h2) := by
  have byte := h2.toNat_lt
  have lsbs : kLsbs.toNat = 72340172838076673 := rfl
  rw [UInt64.toNat_mul, UInt8.toNat_toUInt64, lsbs]
  simp only [List.replicate, loadLe]
  omega

theorem replicate_lane {i : Nat} (inside : i < 8) (h2 : UInt8) : (List.replicate 8 h2)[i]? = some h2 := by
  rw [List.getElem?_replicate, if_pos inside]

theorem fragment_sign {tag : UInt8} : tag.toNat.testBit 7 ↔ 0x80 ≤ tag := by
  have byte := tag.toNat_lt
  have sign : (0x80 : UInt8).toNat = 128 := rfl
  rw [Nat.testBit_eq_decide_div_mod_eq, decide_eq_true_eq, UInt8.le_iff_toNat_le]
  omega

/-- Only an empty tag has both of its top bits set. -/
theorem empty_bits {tag : UInt8} (valid : ValidTag tag) :
    (tag.toNat.testBit 7 ∧ tag.toNat.testBit 6) ↔ tag = kCtrlEmpty := by
  rcases valid with fragment | rfl | rfl
  · have clear : ¬ tag.toNat.testBit 7 := by
      rw [fragment_sign, UInt8.not_le]
      exact fragment
    have other : tag ≠ kCtrlEmpty := by
      rintro rfl
      exact absurd fragment (by decide)
    simp [clear, other]
  · decide
  · decide

section Lanes

variable {ctrl : List UInt8} (length : ctrl.length = 8)
include length

theorem lane_lt {i : Nat} {b : UInt8} (found : ctrl[i]? = some b) : i < 8 :=
  length ▸ (List.getElem?_eq_some_iff.mp found).1

theorem lane_exists {i : Nat} (inside : i < 8) : ∃ b, ctrl[i]? = some b :=
  ⟨_, List.getElem?_eq_getElem (length.symm ▸ inside)⟩

/-- A bit of the difference word is the difference of the bits. -/
theorem testBit_difference (h2 : UInt8) {i : Nat} {b : UInt8} (found : ctrl[i]? = some b) {j : Nat} (inside : j < 8) :
    (load ctrl ^^^ kLsbs * h2.toUInt64).toNat.testBit (8 * i + j) = (b.toNat.testBit j ^^ h2.toNat.testBit j) := by
  rw [UInt64.toNat_xor, Nat.testBit_xor, testBit_load length found inside, broadcast,
    testBit_loadLe (replicate_lane (lane_lt length found) h2) inside]

/-- Where the tag is the one looked for the difference has a zero byte. -/
theorem difference_zero {h2 : UInt8} {i : Nat} (found : ctrl[i]? = some h2) :
    (load ctrl ^^^ kLsbs * h2.toUInt64).toNat / 2 ^ (8 * i) % 2 ^ 8 = 0 := by
  rw [UInt64.toNat_xor, broadcast, load_toNat length, Nat.xor_div_two_pow, Nat.xor_mod_two_pow, byte_loadLe found,
    byte_loadLe (replicate_lane (lane_lt length found) h2), Nat.xor_self]

end Lanes

/-- Subtracting one from every byte sets the sign bit of a zero byte, whatever is borrowed below. -/
theorem borrow_sign {x : UInt64} {i : Nat} (inside : i < 8) (zero : x.toNat / 2 ^ (8 * i) % 2 ^ 8 = 0) :
    (x - kLsbs).toNat.testBit (8 * i + 7) := by
  have word := x.toNat_lt
  have lsbs : kLsbs.toNat = 72340172838076673 := rfl
  rw [UInt64.toNat_sub, lsbs, Nat.testBit_eq_decide_div_mod_eq, decide_eq_true_eq]
  interval_cases i <;> omega

theorem testBit_double {x : UInt64} {j : Nat} (inside : j + 1 < 64) :
    (x <<< 1).toNat.testBit (j + 1) = x.toNat.testBit j := by
  have one : (1 : UInt64).toNat % 64 = 1 := rfl
  rw [UInt64.toNat_shiftLeft, one, Nat.testBit_mod_two_pow, Nat.testBit_shiftLeft]
  simp [inside]

theorem testBit_not {x : UInt64} {j : Nat} (inside : j < 64) : (~~~x).toNat.testBit j = !x.toNat.testBit j := by
  have value : (~~~x).toNat = 2 ^ 64 - (x.toNat + 1) := by
    rw [UInt64.toNat_not]
    have size : UInt64.size = 2 ^ 64 := rfl
    omega
  rw [value, Nat.testBit_two_pow_sub_succ x.toNat_lt]
  simp [inside]

end GroupSwar

/-- Eight tags in a word of plain arithmetic. Its match may offer full slots with other tags. -/
def groupSwar : Group where
  width := 8
  shift := 3
  matchTag := GroupSwar.matchTag
  matchEmpty := GroupSwar.matchEmpty
  matchEmptyOrDeleted := GroupSwar.matchEmptyOrDeleted
  wide := Nat.le_refl 8
  candidate_full := by
    intro ctrl h2 i length fragment member
    obtain ⟨inside, bit⟩ := (GroupSwar.mem_lanes _ i).mp member
    obtain ⟨tag, found⟩ := GroupSwar.lane_exists length inside
    have sign : ¬ h2.toNat.testBit 7 := by
      rw [GroupSwar.fragment_sign, UInt8.not_le]
      exact fragment
    rw [UInt64.toNat_and, Nat.testBit_and, GroupSwar.testBit_not (by omega),
      GroupSwar.testBit_difference length h2 found (by omega)] at bit
    refine ⟨tag, found, ?_⟩
    rw [← UInt8.not_le, ← GroupSwar.fragment_sign]
    intro set
    simp [set, sign] at bit
  candidate_of_eq := by
    intro ctrl h2 i length fragment found
    have inside := GroupSwar.lane_lt length found
    refine (GroupSwar.mem_lanes _ i).mpr ⟨inside, ?_⟩
    rw [UInt64.toNat_and, Nat.testBit_and, GroupSwar.testBit_not (by omega),
      GroupSwar.testBit_difference length h2 found (by omega),
      GroupSwar.borrow_sign inside (GroupSwar.difference_zero length found)]
    simp
  empty_lanes := by
    intro ctrl i length valid
    have lane := GroupSwar.mem_lanes (GroupSwar.load ctrl &&& GroupSwar.load ctrl <<< 1) i
    refine lane.trans ⟨?_, ?_⟩
    · rintro ⟨inside, bit⟩
      obtain ⟨tag, found⟩ := GroupSwar.lane_exists length inside
      rw [UInt64.toNat_and, Nat.testBit_and, GroupSwar.testBit_double (by omega),
        GroupSwar.testBit_load length found (by omega), GroupSwar.testBit_load length found (by omega),
        Bool.and_eq_true, GroupSwar.empty_bits (valid tag (List.mem_of_getElem? found))] at bit
      exact bit ▸ found
    · intro found
      have inside := GroupSwar.lane_lt length found
      refine ⟨inside, ?_⟩
      rw [UInt64.toNat_and, Nat.testBit_and, GroupSwar.testBit_double (by omega),
        GroupSwar.testBit_load length found (by omega), GroupSwar.testBit_load length found (by omega)]
      rfl
  free_lanes := by
    intro ctrl i length
    refine (GroupSwar.mem_lanes (GroupSwar.load ctrl) i).trans ⟨?_, ?_⟩
    · rintro ⟨inside, bit⟩
      obtain ⟨tag, found⟩ := GroupSwar.lane_exists length inside
      rw [GroupSwar.testBit_load length found (by omega), GroupSwar.fragment_sign] at bit
      exact ⟨tag, found, bit⟩
    · rintro ⟨tag, found, sign⟩
      refine ⟨GroupSwar.lane_lt length found, ?_⟩
      rw [GroupSwar.testBit_load length found (by omega), GroupSwar.fragment_sign]
      exact sign

end Itch
