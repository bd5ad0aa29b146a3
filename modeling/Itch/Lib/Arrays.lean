import Mathlib.Data.List.Basic

/-! Arrays read with a default, and segments of what an index gives. -/
namespace Arrays

variable {α : Type*}

theorem getD_set {l : List α} {i : Nat} (inside : i < l.length) (a d : α) (j : Nat) :
    (l.set i a).getD j d = if j = i then a else l.getD j d := by
  rw [List.getD_eq_getElem?_getD, List.getElem?_set, List.getD_eq_getElem?_getD]
  by_cases same : j = i
  · subst same
    simp [inside]
  · have other : ¬ i = j := fun eq => same eq.symm
    simp [same, other]

theorem getD_map_range (f : Nat → α) (d : α) {i n : Nat} (inside : i < n) : ((List.range n).map f).getD i d = f i := by
  simp [List.getD_eq_getElem?_getD, inside]

/-- What `f` gives at `n` indices from `a` on. -/
def segment (f : Nat → α) (a n : Nat) : List α := (List.range n).map fun i => f (a + i)

variable {f g : Nat → α} {a b n : Nat}

@[simp] theorem segment_length : (segment f a n).length = n := by simp [segment]

theorem mem_segment {x : α} : x ∈ segment f a n ↔ ∃ i, a ≤ i ∧ i < a + n ∧ f i = x := by
  simp only [segment, List.mem_map, List.mem_range]
  constructor
  · rintro ⟨i, inside, rfl⟩
    exact ⟨a + i, by omega, by omega, rfl⟩
  · rintro ⟨i, low, high, rfl⟩
    exact ⟨i - a, by omega, by rw [Nat.add_sub_cancel' low]⟩

theorem segment_congr (same : ∀ i < n, f (a + i) = g (b + i)) : segment f a n = segment g b n :=
  List.map_congr_left fun i member => same i (List.mem_range.mp member)

theorem segment_append (f : Nat → α) (a m n : Nat) : segment f a (m + n) = segment f a m ++ segment f (a + m) n := by
  rw [segment, List.range_add, List.map_append, List.map_map]
  simp only [segment, Function.comp_def, Nat.add_assoc]

theorem segment_cons (f : Nat → α) (a n : Nat) : segment f a (n + 1) = f a :: segment f (a + 1) n := by
  rw [Nat.add_comm n 1, segment_append]
  rfl

theorem segment_split {pos : Nat} (inside : pos ≤ n) : segment f 0 n = segment f 0 pos ++ segment f pos (n - pos) := by
  have whole := segment_append f 0 pos (n - pos)
  rwa [Nat.zero_add, Nat.add_sub_cancel' inside] at whole

theorem segment_split_at {pos : Nat} (inside : pos < n) :
    segment f 0 n = segment f 0 pos ++ f pos :: segment f (pos + 1) (n - pos - 1) := by
  have rest : n - pos = n - pos - 1 + 1 := by omega
  rw [segment_split (Nat.le_of_lt inside), rest, segment_cons]
  rfl

end Arrays
