import Itch.Lib.Moves
import Itch.LevelSideLevels
import Itch.Store
import Mathlib.Tactic.Ring

namespace Itch

open Moves (move)

namespace BlockMove

/-- A load of `width` bytes and the store of the loaded value. -/
def copyBlock (m : List UInt8) (dst src width : Nat) : List UInt8 := store m dst (slice m src width)

/-- The 16-byte steps of `moveUp` with `i` bytes still to move, and what they leave. -/
def moveUpBlocks (dst src : Nat) (m : List UInt8) (i : Nat) : List UInt8 × Nat :=
  if 16 ≤ i then moveUpBlocks dst src (copyBlock m (dst + (i - 16)) (src + (i - 16)) 16) (i - 16) else (m, i)

/-- Moves `n` bytes, a multiple of 4, to a higher place. The overlap is safe from the top down. -/
def moveUp (m : List UInt8) (dst src n : Nat) : List UInt8 :=
  let (m, i) := moveUpBlocks dst src m n
  let (m, i) := if 8 ≤ i then (copyBlock m (dst + (i - 8)) (src + (i - 8)) 8, i - 8) else (m, i)
  if 4 ≤ i then copyBlock m dst src 4 else m

/-- The 16-byte steps of `moveDown` once `i` bytes are moved. -/
def moveDownBlocks (dst src n : Nat) (m : List UInt8) (i : Nat) : List UInt8 × Nat :=
  if i + 16 ≤ n then moveDownBlocks dst src n (copyBlock m (dst + i) (src + i) 16) (i + 16) else (m, i)
termination_by n - i

/-- Moves `n` bytes, a multiple of 4, to a lower place. The overlap is safe from the bottom up. -/
def moveDown (m : List UInt8) (dst src n : Nat) : List UInt8 :=
  let (m, i) := moveDownBlocks dst src n m 0
  let (m, i) := if i + 8 ≤ n then (copyBlock m (dst + i) (src + i) 8, i + 8) else (m, i)
  if i + 4 ≤ n then copyBlock m (dst + i) (src + i) 4 else m

/-- `a[pos .. pos + count)` moved to `a[pos + 1 .. pos + count + 1)`, for elements of `size` bytes. -/
def shiftUp (size : Nat) (a : List UInt8) (pos count : Nat) : List UInt8 :=
  moveUp a ((pos + 1) * size) (pos * size) (count * size)

/-- `a[pos + 1 .. pos + count + 1)` moved to `a[pos .. pos + count)`. -/
def shiftDown (size : Nat) (a : List UInt8) (pos count : Nat) : List UInt8 :=
  moveDown a (pos * size) ((pos + 1) * size) (count * size)

theorem copyBlock_eq {m : List UInt8} {src width : Nat} (dst : Nat) (source : src + width ≤ m.length) :
    copyBlock m dst src width = move m dst src width := by
  rw [copyBlock, store, slice_length source, slice, move]

section Up

/-- The bytes from `i` on have been moved, those below not yet. -/
def MovedFrom (m : List UInt8) (dst src n : Nat) (s : List UInt8 × Nat) : Prop :=
  s.2 ≤ n ∧ s.1 = move m (dst + s.2) (src + s.2) (n - s.2)

variable {m : List UInt8} {dst src n : Nat} (up : src ≤ dst) (inside : dst + n ≤ m.length)
include up inside

/-- No byte that is still to be read has been written. -/
theorem MovedFrom.copyBlock {s : List UInt8 × Nat} (moved : MovedFrom m dst src n s) {width : Nat} (enough : width ≤ s.2) :
    MovedFrom m dst src n (copyBlock s.1 (dst + (s.2 - width)) (src + (s.2 - width)) width, s.2 - width) := by
  obtain ⟨le, same⟩ := moved
  have length : s.1.length = m.length := by
    rw [same]
    exact Moves.move_length (by omega) (by omega)
  refine ⟨by omega, ?_⟩
  have target : dst + s.2 = dst + (s.2 - width) + width := by omega
  have source : src + s.2 = src + (s.2 - width) + width := by omega
  have whole : width + (n - s.2) = n - (s.2 - width) := by omega
  rw [copyBlock_eq _ (by omega), same, target, source, Moves.move_above_first (by omega) (by omega) (by omega), whole]

theorem moveUpBlocks_moved {i : Nat} {m' : List UInt8} (moved : MovedFrom m dst src n (m', i)) :
    MovedFrom m dst src n (moveUpBlocks dst src m' i) ∧ (moveUpBlocks dst src m' i).2 < 16 ∧
      (moveUpBlocks dst src m' i).2 % 16 = i % 16 := by
  induction m', i using moveUpBlocks.induct dst src with
  | case1 m' i more ih =>
    obtain ⟨last, few, residue⟩ := ih (moved.copyBlock up inside more)
    rw [moveUpBlocks, if_pos more]
    exact ⟨last, few, by omega⟩
  | case2 m' i done =>
    rw [moveUpBlocks, if_neg done]
    exact ⟨moved, Nat.lt_of_not_le done, rfl⟩

/-- At most one 4-byte step is left, and it is at the bottom. -/
theorem MovedFrom.last_word {i : Nat} {m' : List UInt8} (moved : MovedFrom m dst src n (m', i)) (few : i < 8)
    (whole : i % 4 = 0) : (if 4 ≤ i then BlockMove.copyBlock m' dst src 4 else m') = move m dst src n := by
  have done : ∀ {m'}, MovedFrom m dst src n (m', 0) → m' = move m dst src n := fun moved => moved.2
  split
  · rename_i more
    obtain rfl : i = 4 := by omega
    exact done (moved.copyBlock up inside more)
  · obtain rfl : i = 0 := by omega
    exact done moved

theorem moveUp_eq (whole : n % 4 = 0) : moveUp m dst src n = move m dst src n := by
  have start : MovedFrom m dst src n (m, n) := ⟨Nat.le_refl n, by rw [Nat.sub_self, Moves.move_zero]⟩
  obtain ⟨blocks, few, residue⟩ := moveUpBlocks_moved up inside start
  unfold moveUp
  generalize moveUpBlocks dst src m n = s at blocks few residue
  dsimp only
  by_cases more : 8 ≤ s.2
  · have words := blocks.copyBlock up inside more
    rw [if_pos more]
    exact words.last_word up inside (by omega) (by omega)
  · rw [if_neg more]
    exact blocks.last_word up inside (by omega) (by omega)

end Up

section Down

/-- The first `i` bytes have been moved. -/
def MovedTo (m : List UInt8) (dst src n : Nat) (s : List UInt8 × Nat) : Prop := s.2 ≤ n ∧ s.1 = move m dst src s.2

variable {m : List UInt8} {dst src n : Nat} (down : dst ≤ src) (inside : src + n ≤ m.length)
include down inside

theorem MovedTo.copyBlock {s : List UInt8 × Nat} (moved : MovedTo m dst src n s) {width : Nat} (enough : s.2 + width ≤ n) :
    MovedTo m dst src n (copyBlock s.1 (dst + s.2) (src + s.2) width, s.2 + width) := by
  obtain ⟨le, same⟩ := moved
  have length : s.1.length = m.length := by
    rw [same]
    exact Moves.move_length (by omega) (by omega)
  refine ⟨enough, ?_⟩
  rw [copyBlock_eq _ (by omega), same, Moves.move_below_first (by omega) (by omega) down]

theorem moveDownBlocks_moved {i : Nat} {m' : List UInt8} (moved : MovedTo m dst src n (m', i)) :
    MovedTo m dst src n (moveDownBlocks dst src n m' i) ∧ n < (moveDownBlocks dst src n m' i).2 + 16 ∧
      (moveDownBlocks dst src n m' i).2 % 16 = i % 16 := by
  induction m', i using moveDownBlocks.induct dst src n with
  | case1 m' i more ih =>
    obtain ⟨last, few, residue⟩ := ih (moved.copyBlock down inside more)
    rw [moveDownBlocks, if_pos more]
    exact ⟨last, few, by omega⟩
  | case2 m' i done =>
    rw [moveDownBlocks, if_neg done]
    exact ⟨moved, Nat.lt_of_not_le done, rfl⟩

theorem MovedTo.last_word {i : Nat} {m' : List UInt8} (moved : MovedTo m dst src n (m', i)) (few : n < i + 8)
    (whole : (n - i) % 4 = 0) :
    (if i + 4 ≤ n then BlockMove.copyBlock m' (dst + i) (src + i) 4 else m') = move m dst src n := by
  have done : ∀ {m'}, MovedTo m dst src n (m', n) → m' = move m dst src n := fun moved => moved.2
  have le : i ≤ n := moved.1
  split
  · rename_i more
    have last := moved.copyBlock down inside more
    obtain rfl : n = i + 4 := by omega
    exact done last
  · obtain rfl : n = i := by omega
    exact done moved

theorem moveDown_eq (whole : n % 4 = 0) : moveDown m dst src n = move m dst src n := by
  have start : MovedTo m dst src n (m, 0) := ⟨Nat.zero_le n, (Moves.move_zero ..).symm⟩
  obtain ⟨blocks, few, residue⟩ := moveDownBlocks_moved down inside start
  have le := blocks.1
  unfold moveDown
  generalize moveDownBlocks dst src n m 0 = s at blocks few residue le
  dsimp only
  by_cases more : s.2 + 8 ≤ n
  · have words := blocks.copyBlock down inside more
    rw [if_pos more]
    exact words.last_word down inside (by omega) (by omega)
  · rw [if_neg more]
    exact blocks.last_word down inside (by omega) (by omega)

end Down

section Shifts

variable {size : Nat} (word : size % 4 = 0) {a : List UInt8} {pos count : Nat}
  (inside : (pos + count + 1) * size ≤ a.length)
include word inside

theorem shiftUp_eq : shiftUp size a pos count = move a ((pos + 1) * size) (pos * size) (count * size) := by
  have whole : count * size % 4 = 0 := Nat.mod_eq_zero_of_dvd (Dvd.dvd.mul_left (Nat.dvd_of_mod_eq_zero word) count)
  have target : (pos + 1) * size + count * size = (pos + count + 1) * size := by ring
  exact moveUp_eq (Nat.mul_le_mul_right size (Nat.le_succ pos)) (by omega) whole

theorem shiftDown_eq : shiftDown size a pos count = move a (pos * size) ((pos + 1) * size) (count * size) := by
  have whole : count * size % 4 = 0 := Nat.mod_eq_zero_of_dvd (Dvd.dvd.mul_left (Nat.dvd_of_mod_eq_zero word) count)
  have source : (pos + 1) * size + count * size = (pos + count + 1) * size := by ring
  exact moveDown_eq (Nat.mul_le_mul_right size (Nat.le_succ pos)) (by omega) whole

end Shifts

/-- Both shifts do what `memmove` would do, whatever the elements. -/
theorem shifts_are_moves {size : Nat} (word : size % 4 = 0) {a : List UInt8} {pos count : Nat}
    (inside : (pos + count + 1) * size ≤ a.length) :
    ((shiftUp size a pos count).length = a.length ∧
      slice (shiftUp size a pos count) ((pos + 1) * size) (count * size) = slice a (pos * size) (count * size) ∧
      ∀ i, i < (pos + 1) * size ∨ (pos + count + 1) * size ≤ i → (shiftUp size a pos count)[i]? = a[i]?) ∧
    ((shiftDown size a pos count).length = a.length ∧
      slice (shiftDown size a pos count) (pos * size) (count * size) = slice a ((pos + 1) * size) (count * size) ∧
      ∀ i, i < pos * size ∨ (pos + count) * size ≤ i → (shiftDown size a pos count)[i]? = a[i]?) := by
  have top : (pos + 1) * size + count * size = (pos + count + 1) * size := by ring
  have low : pos * size + count * size = (pos + count) * size := by ring
  have last : (pos + count) * size ≤ (pos + count + 1) * size := Nat.mul_le_mul_right size (Nat.le_succ _)
  rw [shiftUp_eq word inside, shiftDown_eq word inside]
  refine ⟨⟨Moves.move_length (by omega) (by omega), Moves.segment_move (by omega) (by omega), ?_⟩,
    ⟨Moves.move_length (by omega) (by omega), Moves.segment_move (by omega) (by omega), ?_⟩⟩
  · intro i outside
    exact Moves.getElem?_outside (by omega) (by omega) (by omega)
  · intro i outside
    exact Moves.getElem?_outside (by omega) (by omega) (by omega)

/-- Two elements of 12 bytes, shifted within 36 bytes. -/
theorem shifts_are_moves_sample :
    slice (shiftUp 12 ((List.range 36).map UInt8.ofNat) 0 2) 12 24 = slice ((List.range 36).map UInt8.ofNat) 0 24 ∧
      slice (shiftDown 12 ((List.range 36).map UInt8.ofNat) 0 2) 0 24 = slice ((List.range 36).map UInt8.ofNat) 12 24 := by
  obtain ⟨⟨-, up, -⟩, -, down, -⟩ :=
    @shifts_are_moves 12 rfl ((List.range 36).map UInt8.ofNat) 0 2 (by rw [List.length_map, List.length_range])
  exact ⟨up, down⟩

section Arrays

variable {α : Type} [Inhabited α] {a : List α}

theorem getElem?_reindex {f : Nat → Nat} {i : Nat} (within : i < a.length) (valid : f i < a.length) :
    ((List.range a.length).map fun i => a.getD (f i) default)[i]? = a[f i]? := by
  simp [within, valid]

variable {pos count : Nat} (inside : pos + count + 1 ≤ a.length)
include inside

theorem shiftUp_elements : LevelSide.shiftUp a pos count = move a (pos + 1) pos count := by
  apply Moves.eq_move (by omega) (by omega)
  · intro i within
    have here : pos < pos + 1 + i ∧ pos + 1 + i ≤ pos + count := by omega
    have from_ : pos + 1 + i - 1 = pos + i := by omega
    rw [LevelSide.shiftUp, getElem?_reindex (by omega) (by rw [if_pos here]; omega), if_pos here, from_]
  · intro i beyond
    rcases Nat.lt_or_ge i a.length with within | outside
    · have stays : ¬ (pos < i ∧ i ≤ pos + count) := by omega
      rw [LevelSide.shiftUp, getElem?_reindex within (by rw [if_neg stays]; exact within), if_neg stays]
    · rw [List.getElem?_eq_none (by rw [LevelSide.length_shiftUp]; exact outside), List.getElem?_eq_none outside]

theorem shiftDown_elements : LevelSide.shiftDown a pos count = move a pos (pos + 1) count := by
  apply Moves.eq_move (by omega) (by omega)
  · intro i within
    have here : pos ≤ pos + i ∧ pos + i < pos + count := by omega
    have from_ : pos + i + 1 = pos + 1 + i := by omega
    rw [LevelSide.shiftDown, getElem?_reindex (by omega) (by rw [if_pos here]; omega), if_pos here, from_]
  · intro i beyond
    rcases Nat.lt_or_ge i a.length with within | outside
    · have stays : ¬ (pos ≤ i ∧ i < pos + count) := by omega
      rw [LevelSide.shiftDown, getElem?_reindex within (by rw [if_neg stays]; exact within), if_neg stays]
    · rw [List.getElem?_eq_none (by rw [LevelSide.length_shiftDown]; exact outside), List.getElem?_eq_none outside]

variable {encode : α → List UInt8} {size : Nat} (wide : ∀ x, (encode x).length = size) (word : size % 4 = 0)
include wide word

/-- The shifts of the level arrays, in the bytes of their elements. -/
theorem shiftUp_encoded : shiftUp size (a.flatMap encode) pos count = (LevelSide.shiftUp a pos count).flatMap encode := by
  have room : (pos + count + 1) * size ≤ (a.flatMap encode).length := by
    rw [Moves.flatMap_length wide]
    exact Nat.mul_le_mul_right size inside
  rw [shiftUp_eq word room, shiftUp_elements inside, Moves.flatMap_move wide]

theorem shiftDown_encoded :
    shiftDown size (a.flatMap encode) pos count = (LevelSide.shiftDown a pos count).flatMap encode := by
  have room : (pos + count + 1) * size ≤ (a.flatMap encode).length := by
    rw [Moves.flatMap_length wide]
    exact Nat.mul_le_mul_right size inside
  rw [shiftDown_eq word room, shiftDown_elements inside, Moves.flatMap_move wide]

end Arrays

end BlockMove

end Itch
