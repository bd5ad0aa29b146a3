import Itch.Lib.Arrays
import Itch.LevelSide

namespace Itch

open Arrays

structure Level where
  key : UInt32
  qty : UInt64
  orders : UInt32
  deriving DecidableEq

namespace LevelSide

variable {s : LevelSide}

def level (s : LevelSide) (i : Nat) : Level := ⟨keyAt s.keys i, s.qtyAt i, s.ordersAt i⟩

/-- The levels held, best last. -/
def levels (s : LevelSide) : List Level := segment s.level 0 s.size

/-- Arrays of the capacity, which is a doubled initial one, and strictly ascending keys. -/
structure WF (s : LevelSide) : Prop where
  fits : s.size ≤ s.cap
  keys : s.keys.length = s.cap
  qty : s.qty.length = s.cap
  orders : s.orders.length = s.cap
  capacity : s.cap = 0 ∨ ∃ e ≤ 27, s.cap = 16 * 2 ^ e
  ascending : ∀ i j, i < j → j < s.size → keyAt s.keys i < keyAt s.keys j

theorem empty_wf : ({} : LevelSide).WF where
  fits := Nat.le_refl 0
  keys := rfl
  qty := rfl
  orders := rfl
  capacity := .inl rfl
  ascending := fun _ _ _ => nofun

theorem WF.sorted (wf : s.WF) : Ascending s.keys s.size := by
  intro i j le inside
  rcases Nat.lt_or_eq_of_le le with before | rfl
  · exact UInt32.le_of_lt (wf.ascending i j before inside)
  · exact UInt32.le_refl _

theorem WF.cap_le (wf : s.WF) : s.cap ≤ 2 ^ 31 := by
  rcases wf.capacity with zero | ⟨e, small, shape⟩
  · omega
  · have bound : 2 ^ e ≤ 2 ^ 27 := Nat.pow_le_pow_right (by decide) small
    omega

section Arrays

variable {α : Type} [Inhabited α]

theorem getD_shiftUp {a : List α} {pos count i : Nat} (inside : i < a.length) :
    (shiftUp a pos count).getD i default = a.getD (if pos < i ∧ i ≤ pos + count then i - 1 else i) default :=
  getD_map_range _ _ inside

theorem getD_shiftDown {a : List α} {pos count i : Nat} (inside : i < a.length) :
    (shiftDown a pos count).getD i default = a.getD (if pos ≤ i ∧ i < pos + count then i + 1 else i) default :=
  getD_map_range _ _ inside

theorem length_shiftUp (a : List α) (pos count : Nat) : (shiftUp a pos count).length = a.length := by simp [shiftUp]

theorem length_shiftDown (a : List α) (pos count : Nat) : (shiftDown a pos count).length = a.length := by simp [shiftDown]

/-- An array with a gap opened at `pos` among its first `n` elements and filled. -/
def opened (a : List α) (pos n : Nat) (v : α) : List α := (if n - pos ≠ 0 then shiftUp a pos (n - pos) else a).set pos v

/-- An array with element `pos` of its first `n` taken out. -/
def closed (a : List α) (pos n : Nat) : List α := if n - pos - 1 ≠ 0 then shiftDown a pos (n - pos - 1) else a

theorem length_opened (a : List α) (pos n : Nat) (v : α) : (opened a pos n v).length = a.length := by
  rw [opened, List.length_set]
  split
  · exact length_shiftUp ..
  · rfl

theorem length_closed (a : List α) (pos n : Nat) : (closed a pos n).length = a.length := by
  rw [closed]
  split
  · exact length_shiftDown ..
  · rfl

theorem getD_opened (a : List α) (v : α) {pos n : Nat} (room : n < a.length) (inside : pos ≤ n) {i : Nat} (le : i ≤ n) :
    (opened a pos n v).getD i default = if i = pos then v else a.getD (if pos < i then i - 1 else i) default := by
  have length := length_opened a pos n v
  rw [opened] at length ⊢
  rw [List.length_set] at length
  rw [getD_set (by omega)]
  by_cases here : i = pos
  · rw [if_pos here, if_pos here]
  · rw [if_neg here, if_neg here]
    split
    · rw [getD_shiftUp (by omega)]
      congr 1
      split <;> split <;> omega
    · congr 1
      split <;> omega

theorem getD_closed (a : List α) {pos n : Nat} (room : n ≤ a.length) (inside : pos < n) {i : Nat} (lt : i < n - 1) :
    (closed a pos n).getD i default = a.getD (if pos ≤ i then i + 1 else i) default := by
  rw [closed]
  split
  · rw [getD_shiftDown (by omega)]
    congr 1
    split <;> split <;> omega
  · congr 1
    split <;> omega

end Arrays

end LevelSide

end Itch
