import Mathlib.Data.List.Basic

/-! Gathers of bytes by a table, out of shuffles that each see 16 bytes of the buffer. -/
namespace Shuffle

/-- The shuffle of one lane: a control with its sign bit set gives 0, any other
picks by its low four bits. -/
def shuffleEpi8 (lane : List UInt8) (control : List Int8) : List UInt8 :=
  control.map fun c => if c < 0 then 0 else lane.getD (c.toInt.toNat % 16) 0

def orBytes (a b : List UInt8) : List UInt8 := a.zipWith (· ||| ·) b

/-- The bytes of `buf` that the table names, 0 for a negative entry. -/
def gather (buf : List UInt8) (sources : List Int) : List UInt8 :=
  sources.map fun s : Int => if 0 ≤ s then buf.getD s.toNat 0 else 0

/-- The control for the entries of the table in one chunk of 16 bytes. -/
def chunkControl (chunk : Nat) (s : Int) : Int8 := if 0 ≤ s ∧ s / 16 = chunk then .ofInt (s % 16) else -128

/-- What is gathered from the first `n` chunks. -/
def gatherBelow (buf : List UInt8) (n : Nat) (sources : List Int) : List UInt8 :=
  sources.map fun s : Int => if 0 ≤ s ∧ s < 16 * n then buf.getD s.toNat 0 else 0

variable {buf : List UInt8} {sources : List Int} {n : Nat}

theorem shuffleEpi8_length (lane : List UInt8) (control : List Int8) : (shuffleEpi8 lane control).length = control.length := by
  simp [shuffleEpi8]

theorem picked_index {r : Int} (low : 0 ≤ r) (high : r < 16) : ¬ Int8.ofInt r < 0 ∧ (Int8.ofInt r).toInt.toNat % 16 = r.toNat := by
  obtain ⟨k, rfl⟩ := Int.eq_ofNat_of_zero_le low
  have small : k < 16 := by omega
  have each : ∀ k < 16, ¬ Int8.ofInt (k : Nat) < 0 ∧ (Int8.ofInt (k : Nat)).toInt.toNat % 16 = k := by decide
  exact each k small

/-- A shuffle of a chunk finds the bytes of the buffer in it and leaves 0 for the others. -/
theorem shuffleEpi8_chunk (buf : List UInt8) (chunk : Nat) (sources : List Int) :
    shuffleEpi8 ((buf.drop (16 * chunk)).take 16) (sources.map (chunkControl chunk)) =
      sources.map fun s : Int => if 0 ≤ s ∧ s / 16 = chunk then buf.getD s.toNat 0 else 0 := by
  rw [shuffleEpi8, List.map_map]
  refine List.map_congr_left fun s _ => ?_
  by_cases here : 0 ≤ s ∧ s / 16 = chunk
  · obtain ⟨picks, index⟩ := picked_index (Int.emod_nonneg s (show (16 : Int) ≠ 0 by decide))
      (Int.emod_lt_of_pos s (show (0 : Int) < 16 by decide))
    have split : s.toNat = 16 * chunk + (s % 16).toNat := by omega
    have inside : (s % 16).toNat < 16 := by omega
    simp only [Function.comp_apply, chunkControl, if_pos here, if_neg picks, index]
    rw [split, List.getD_eq_getElem?_getD, List.getD_eq_getElem?_getD, List.getElem?_take_of_lt inside, List.getElem?_drop]
  · have sign : (-128 : Int8) < 0 := by decide
    simp only [Function.comp_apply, chunkControl, if_neg here, if_pos sign]

theorem gatherBelow_one (buf : List UInt8) (sources : List Int) :
    shuffleEpi8 (buf.take 16) (sources.map (chunkControl 0)) = gatherBelow buf 1 sources := by
  have first := shuffleEpi8_chunk buf 0 sources
  rw [Nat.mul_zero, List.drop_zero] at first
  refine first.trans (List.map_congr_left fun s _ => ?_)
  congr 1
  refine propext (and_congr_right fun low => ?_)
  omega

/-- One more chunk: no byte comes from two. -/
theorem gatherBelow_succ (buf : List UInt8) (n : Nat) (sources : List Int) :
    orBytes (gatherBelow buf n sources) (shuffleEpi8 ((buf.drop (16 * n)).take 16) (sources.map (chunkControl n))) =
      gatherBelow buf (n + 1) sources := by
  rw [shuffleEpi8_chunk, orBytes, gatherBelow, gatherBelow, List.zipWith_map, List.zipWith_self]
  refine List.map_congr_left fun s _ => ?_
  by_cases here : 0 ≤ s ∧ s / 16 = n
  · rw [if_neg (by omega), if_pos here, if_pos (by omega), UInt8.zero_or]
  · rw [if_neg here, UInt8.or_zero]
    congr 1
    refine propext ?_
    constructor
    · rintro ⟨low, below⟩
      omega
    · rintro ⟨low, below⟩
      omega

theorem gatherBelow_all (inside : ∀ s ∈ sources, s < 16 * n) : gatherBelow buf n sources = gather buf sources := by
  unfold gatherBelow gather
  refine List.map_congr_left fun s member => ?_
  have below := inside s member
  simp only [below, and_true]

theorem gather_append (buf : List UInt8) (front back : List Int) :
    gather buf (front ++ back) = gather buf front ++ gather buf back := List.map_append

/-- The positions of a big-endian field in little-endian order. -/
def reversed (p w : Nat) : List Int := ((List.range w).map fun i : Nat => (p : Int) + i).reverse

theorem gather_reversed {p w : Nat} (inside : p + w ≤ buf.length) :
    gather buf (reversed p w) = ((buf.drop p).take w).reverse := by
  rw [gather, reversed, List.map_reverse, List.map_map]
  congr 1
  apply List.ext_getElem
  · simp only [List.length_map, List.length_range, List.length_take, List.length_drop]
    omega
  · intro i low high
    have here : p + i < buf.length := by
      rw [List.length_map, List.length_range] at low
      omega
    have sign : (0 : Int) ≤ p + i := by omega
    have position : ((p : Int) + i).toNat = p + i := by omega
    simp [sign, position, here]

end Shuffle
