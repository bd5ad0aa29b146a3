import Mathlib.Data.List.Basic

/-! Moves of a segment within one array, whose source and target may overlap. -/
namespace Moves

variable {α β : Type}

/-- The `n` elements from `src` on, written from `dst` on. All are read before any is written. -/
def move (m : List α) (dst src n : Nat) : List α := m.take dst ++ (m.drop src).take n ++ m.drop (dst + n)

theorem move_zero (m : List α) (dst src : Nat) : move m dst src 0 = m := by
  simp [move]

section Inside

variable {m : List α} {dst src n : Nat} (source : src + n ≤ m.length) (target : dst + n ≤ m.length)
include source target

theorem move_length : (move m dst src n).length = m.length := by
  simp only [move, List.length_append, List.length_take, List.length_drop]
  omega

theorem getElem?_move (i : Nat) :
    (move m dst src n)[i]? = if dst ≤ i ∧ i < dst + n then m[src + (i - dst)]? else m[i]? := by
  have front : (m.take dst).length = dst := List.length_take_of_le (by omega)
  have middle : ((m.drop src).take n).length = n := by
    rw [List.length_take, List.length_drop]
    omega
  rw [move, List.append_assoc]
  rcases Nat.lt_or_ge i dst with before | after
  · rw [List.getElem?_append_left (by omega), List.getElem?_take_of_lt before, if_neg (by omega)]
  · rw [List.getElem?_append_right (by omega), front]
    rcases Nat.lt_or_ge i (dst + n) with within | beyond
    · rw [List.getElem?_append_left (by omega), List.getElem?_take_of_lt (by omega), List.getElem?_drop, if_pos ⟨after, within⟩]
    · rw [List.getElem?_append_right (by omega), middle, List.getElem?_drop, if_neg (by omega)]
      congr 1
      omega

theorem getElem?_inside {i : Nat} (within : i < n) : (move m dst src n)[dst + i]? = m[src + i]? := by
  rw [getElem?_move source target, if_pos (by omega), Nat.add_sub_cancel_left]

theorem getElem?_outside {i : Nat} (beyond : i < dst ∨ dst + n ≤ i) : (move m dst src n)[i]? = m[i]? := by
  rw [getElem?_move source target, if_neg (by omega)]

/-- What holds the source in the target and is unchanged elsewhere is the result of the move. -/
theorem eq_move {out : List α} (within : ∀ i < n, out[dst + i]? = m[src + i]?)
    (beyond : ∀ i, i < dst ∨ dst + n ≤ i → out[i]? = m[i]?) : out = move m dst src n := by
  apply List.ext_getElem?
  intro i
  by_cases target' : dst ≤ i ∧ i < dst + n
  · obtain ⟨k, rfl⟩ := Nat.exists_eq_add_of_le target'.1
    rw [within k (by omega), getElem?_inside source target (by omega)]
  · rw [beyond i (by omega), getElem?_outside source target (by omega)]

/-- The target of a move holds what the source held. -/
theorem segment_move : ((move m dst src n).drop dst).take n = (m.drop src).take n := by
  have front : (m.take dst).length = dst := List.length_take_of_le (by omega)
  have middle : ((m.drop src).take n).length = n := by
    rw [List.length_take, List.length_drop]
    omega
  rw [move, List.append_assoc, List.drop_left' front, List.take_left' middle]

end Inside

section Split

variable {m : List α} {dst src k n : Nat} (source : src + (k + n) ≤ m.length) (target : dst + (k + n) ≤ m.length)
include source target

/-- A move to higher places may be done from the top down. -/
theorem move_above_first (up : src ≤ dst) : move (move m (dst + k) (src + k) n) dst src k = move m dst src (k + n) := by
  have length : (move m (dst + k) (src + k) n).length = m.length := move_length (by omega) (by omega)
  apply eq_move source target
  · intro i within
    rcases Nat.lt_or_ge i k with low | high
    · rw [getElem?_inside (by omega) (by omega) low, getElem?_outside (by omega) (by omega) (by omega)]
    · obtain ⟨j, rfl⟩ := Nat.exists_eq_add_of_le high
      rw [getElem?_outside (by omega) (by omega) (by omega), ← Nat.add_assoc, ← Nat.add_assoc,
        getElem?_inside (by omega) (by omega) (by omega)]
  · intro i beyond
    rw [getElem?_outside (by omega) (by omega) (by omega), getElem?_outside (by omega) (by omega) (by omega)]

/-- A move to lower places may be done from the bottom up. -/
theorem move_below_first (down : dst ≤ src) : move (move m dst src k) (dst + k) (src + k) n = move m dst src (k + n) := by
  have length : (move m dst src k).length = m.length := move_length (by omega) (by omega)
  apply eq_move source target
  · intro i within
    rcases Nat.lt_or_ge i k with low | high
    · rw [getElem?_outside (by omega) (by omega) (by omega), getElem?_inside (by omega) (by omega) low]
    · obtain ⟨j, rfl⟩ := Nat.exists_eq_add_of_le high
      rw [← Nat.add_assoc, ← Nat.add_assoc, getElem?_inside (by omega) (by omega) (by omega),
        getElem?_outside (by omega) (by omega) (by omega)]
  · intro i beyond
    rw [getElem?_outside (by omega) (by omega) (by omega), getElem?_outside (by omega) (by omega) (by omega)]

end Split

section Encoded

variable {encode : α → List β} {width : Nat} (wide : ∀ a, (encode a).length = width)
include wide

theorem flatMap_take (m : List α) (k : Nat) : (m.take k).flatMap encode = (m.flatMap encode).take (k * width) := by
  induction m generalizing k with
  | nil => simp
  | cons a m ih =>
    cases k with
    | zero => simp
    | succ k =>
      have rest : (k + 1) * width - (encode a).length = k * width := by rw [wide, Nat.succ_mul, Nat.add_sub_cancel]
      have all : (encode a).take ((k + 1) * width) = encode a :=
        List.take_of_length_le (by rw [wide]; exact Nat.le_mul_of_pos_left _ k.succ_pos)
      rw [List.take_succ_cons, List.flatMap_cons, List.flatMap_cons, List.take_append, ih, rest, all]

theorem flatMap_drop (m : List α) (k : Nat) : (m.drop k).flatMap encode = (m.flatMap encode).drop (k * width) := by
  induction m generalizing k with
  | nil => simp
  | cons a m ih =>
    cases k with
    | zero => simp
    | succ k =>
      have rest : (k + 1) * width - (encode a).length = k * width := by rw [wide, Nat.succ_mul, Nat.add_sub_cancel]
      have all : (encode a).drop ((k + 1) * width) = [] :=
        List.drop_of_length_le (by rw [wide]; exact Nat.le_mul_of_pos_left _ k.succ_pos)
      rw [List.drop_succ_cons, List.flatMap_cons, List.drop_append, ih, rest, all, List.nil_append]

/-- A move of elements is a move of their encodings. -/
theorem flatMap_move (m : List α) (dst src n : Nat) :
    (move m dst src n).flatMap encode = move (m.flatMap encode) (dst * width) (src * width) (n * width) := by
  rw [move, List.flatMap_append, List.flatMap_append, flatMap_take wide, flatMap_take wide, flatMap_drop wide,
    flatMap_drop wide, move, Nat.add_mul]

theorem flatMap_length (m : List α) : (m.flatMap encode).length = m.length * width := by
  induction m with
  | nil => simp
  | cons a m ih => rw [List.flatMap_cons, List.length_append, ih, wide, List.length_cons, Nat.succ_mul, Nat.add_comm]

end Encoded

end Moves
