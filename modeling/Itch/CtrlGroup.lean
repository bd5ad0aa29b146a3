import Itch.Lib.BitScan
import Mathlib.Data.List.Basic
import Mathlib.Data.Nat.Bitwise
import Mathlib.Tactic.IntervalCases

namespace Itch

open BitScan

/-- Set bits of a group match, `shift` being the log of the bits for each slot. -/
structure BitMask (shift : Nat) where
  bits : UInt64

namespace BitMask

variable {shift : Nat}

def any (m : BitMask shift) : Bool := m.bits != 0

def lowest (m : BitMask shift) : Nat := countrZero m.bits.toNat >>> shift

/-- What a range-for over the mask visits. -/
def lanes (m : BitMask shift) : List Nat := (scan m.bits.toNat).map (· >>> shift)

theorem mem_lanes (m : BitMask shift) (i : Nat) : i ∈ m.lanes ↔ ∃ j, m.bits.toNat.testBit j ∧ j >>> shift = i := by
  simp only [lanes, List.mem_map, mem_scan m.bits.toNat_lt]

theorem any_iff (m : BitMask shift) : m.any ↔ m.bits.toNat ≠ 0 := by
  rw [any, bne_iff_ne, Ne, Ne, ← UInt64.toNat_inj]
  rfl

theorem lowest_mem {m : BitMask shift} (some : m.any) : m.lowest ∈ m.lanes := by
  obtain ⟨_, bit, _⟩ := countrZero_spec m.bits.toNat_lt (m.any_iff.mp some)
  exact (m.mem_lanes _).mpr ⟨_, bit, rfl⟩

theorem any_iff_lanes (m : BitMask shift) : m.any ↔ ∃ i, i ∈ m.lanes := by
  constructor
  · exact fun some => ⟨m.lowest, lowest_mem some⟩
  · rintro ⟨i, member⟩
    obtain ⟨j, bit, -⟩ := (m.mem_lanes i).mp member
    rw [any_iff]
    rintro zero
    rw [zero, Nat.zero_testBit] at bit
    cases bit

end BitMask

def kCtrlEmpty : UInt8 := 0xFF

def kCtrlDeleted : UInt8 := 0x80

/-- The tags a control byte can have: a hash fragment, a tombstone, or empty. -/
def ValidTag (tag : UInt8) : Prop := tag < 0x80 ∨ tag = kCtrlDeleted ∨ tag = kCtrlEmpty

/-- The compares of a control group with what an open-addressing table relies
on: the candidates are full slots and leave out no equal tag, the other two
masks are exact. -/
structure Group where
  width : Nat
  shift : Nat
  matchTag : List UInt8 → UInt8 → BitMask shift
  matchEmpty : List UInt8 → BitMask shift
  matchEmptyOrDeleted : List UInt8 → BitMask shift
  wide : 8 ≤ width
  candidate_full : ∀ ctrl h2 i, ctrl.length = width → h2 < 0x80 → i ∈ (matchTag ctrl h2).lanes →
    ∃ tag, ctrl[i]? = some tag ∧ tag < 0x80
  candidate_of_eq : ∀ ctrl h2 i, ctrl.length = width → h2 < 0x80 → ctrl[i]? = some h2 → i ∈ (matchTag ctrl h2).lanes
  empty_lanes : ∀ ctrl i, ctrl.length = width → (∀ tag ∈ ctrl, ValidTag tag) →
    (i ∈ (matchEmpty ctrl).lanes ↔ ctrl[i]? = some kCtrlEmpty)
  free_lanes : ∀ ctrl i, ctrl.length = width →
    (i ∈ (matchEmptyOrDeleted ctrl).lanes ↔ ∃ tag, ctrl[i]? = some tag ∧ 0x80 ≤ tag)

section Vector

/-- Lane by lane, all ones where equal. -/
def cmpeqEpi8 (a b : List UInt8) : List UInt8 := List.zipWith (fun x y => if x = y then 0xFF else 0) a b

/-- The sign bits, lane 0 lowest. -/
def movemaskEpi8 : List UInt8 → Nat
  | [] => 0
  | b :: bs => (if 0x80 ≤ b then 1 else 0) + 2 * movemaskEpi8 bs

theorem testBit_movemaskEpi8 (bytes : List UInt8) (i : Nat) :
    (movemaskEpi8 bytes).testBit i ↔ ∃ b, bytes[i]? = some b ∧ 0x80 ≤ b := by
  induction bytes generalizing i with
  | nil => simp [movemaskEpi8]
  | cons b bs ih =>
    have low : ((if 0x80 ≤ b then 1 else 0) + 2 * movemaskEpi8 bs) % 2 = if 0x80 ≤ b then 1 else 0 := by
      split <;> omega
    have high : ((if 0x80 ≤ b then 1 else 0) + 2 * movemaskEpi8 bs) / 2 = movemaskEpi8 bs := by
      split <;> omega
    cases i with
    | zero => simp [movemaskEpi8, Nat.testBit_zero, low]
    | succ i => simp only [movemaskEpi8, Nat.testBit_succ, high, ih, List.getElem?_cons_succ]

theorem movemaskEpi8_lt (bytes : List UInt8) : movemaskEpi8 bytes < 2 ^ bytes.length := by
  induction bytes with
  | nil => decide
  | cons b bs ih =>
    rw [movemaskEpi8, List.length_cons, Nat.pow_succ]
    split <;> omega

/-- `pmovmskb` of a vector of at most 64 lanes as a mask. -/
def vectorMask (bytes : List UInt8) : BitMask 0 := ⟨UInt64.ofNat (movemaskEpi8 bytes)⟩

theorem mem_vectorMask {bytes : List UInt8} (short : bytes.length ≤ 64) (i : Nat) :
    i ∈ (vectorMask bytes).lanes ↔ ∃ b, bytes[i]? = some b ∧ 0x80 ≤ b := by
  have small : movemaskEpi8 bytes < 2 ^ 64 :=
    Nat.lt_of_lt_of_le (movemaskEpi8_lt bytes) (Nat.pow_le_pow_right (by decide) short)
  have bits : (vectorMask bytes).bits.toNat = movemaskEpi8 bytes := by
    rw [vectorMask, UInt64.toNat_ofNat', Nat.mod_eq_of_lt small]
  simp [BitMask.mem_lanes, bits, testBit_movemaskEpi8]

theorem mem_cmpeqEpi8 {ctrl : List UInt8} (short : ctrl.length ≤ 64) (tag : UInt8) (i : Nat) :
    i ∈ (vectorMask (cmpeqEpi8 ctrl (List.replicate ctrl.length tag))).lanes ↔ ctrl[i]? = some tag := by
  rw [mem_vectorMask (by simpa [cmpeqEpi8] using short)]
  by_cases inside : i < ctrl.length
  · by_cases same : ctrl[i] = tag
    · simp [cmpeqEpi8, inside, same]
    · simp [cmpeqEpi8, inside, same]
  · simp [cmpeqEpi8, Nat.le_of_not_lt inside]

/-- A group of as many lanes as a vector register has bytes. -/
def vectorGroup (width : Nat) (wide : 8 ≤ width) (short : width ≤ 64) : Group where
  width := width
  shift := 0
  matchTag ctrl h2 := vectorMask (cmpeqEpi8 ctrl (List.replicate ctrl.length h2))
  matchEmpty ctrl := vectorMask (cmpeqEpi8 ctrl (List.replicate ctrl.length kCtrlEmpty))
  matchEmptyOrDeleted ctrl := vectorMask ctrl
  wide := wide
  candidate_full := by
    intro ctrl h2 i length fragment member
    exact ⟨h2, (mem_cmpeqEpi8 (length ▸ short) h2 i).mp member, fragment⟩
  candidate_of_eq := fun ctrl h2 i length _ found => (mem_cmpeqEpi8 (length ▸ short) h2 i).mpr found
  empty_lanes := fun ctrl i length _ => mem_cmpeqEpi8 (length ▸ short) kCtrlEmpty i
  free_lanes := fun ctrl i length => mem_vectorMask (length ▸ short) i

def groupSse2 : Group := vectorGroup 16 (by decide) (by decide)

def groupAvx2 : Group := vectorGroup 32 (by decide) (by decide)

end Vector

end Itch
