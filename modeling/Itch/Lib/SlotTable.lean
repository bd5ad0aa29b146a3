import Mathlib.Data.List.Basic
import Mathlib.Data.List.Nodup
import Mathlib.Data.List.Perm.Basic
import Mathlib.Logic.Function.Basic

/-! The contents of a table of optional slots, up to order. -/
namespace SlotTable

variable {α : Type*} {n i : Nat} {f : Nat → Option α}

def contents (n : Nat) (f : Nat → Option α) : List α := (List.range n).filterMap f

theorem mem_contents {a : α} : a ∈ contents n f ↔ ∃ i < n, f i = some a := by
  simp only [contents, List.mem_filterMap, List.mem_range]

/-- One slot's value and the contents of the others. -/
theorem contents_update (inside : i < n) (v : Option α) :
    (contents n (Function.update f i v)).Perm (v.toList ++ contents n (Function.update f i none)) := by
  have first : (List.range n).Perm (i :: (List.range n).erase i) := List.perm_cons_erase (List.mem_range.mpr inside)
  have others : ∀ w, ((List.range n).erase i).filterMap (Function.update f i w) = ((List.range n).erase i).filterMap f := by
    intro w
    refine List.filterMap_congr fun j member => ?_
    exact Function.update_of_ne (List.nodup_range.mem_erase_iff.mp member).1 _ _
  have around : ∀ w, (contents n (Function.update f i w)).Perm (w.toList ++ ((List.range n).erase i).filterMap f) := by
    intro w
    refine (first.filterMap _).trans ?_
    rw [List.filterMap_cons, Function.update_self, others]
    cases w <;> exact List.Perm.refl _
  exact (around v).trans ((around none).symm.append_left _)

theorem contents_fill (inside : i < n) (free : f i = none) (a : α) :
    (contents n (Function.update f i (some a))).Perm (a :: contents n f) := by
  have same : Function.update f i none = f := free ▸ Function.update_eq_self i f
  have split := @contents_update _ n i f inside (some a)
  rwa [same] at split

theorem contents_take (inside : i < n) {a : α} (held : f i = some a) :
    (contents n f).Perm (a :: contents n (Function.update f i none)) := by
  have same : Function.update f i (some a) = f := held ▸ Function.update_eq_self i f
  have split := @contents_update _ n i f inside (some a)
  rwa [same] at split

theorem contents_length_lt : (contents n f).length < n ↔ ∃ i < n, f i = none := by
  have whole : (contents n f).length = (List.range n).length ↔ ∀ i ∈ List.range n, (f i).isSome :=
    List.filterMap_length_eq_length
  have le : (contents n f).length ≤ (List.range n).length := List.length_filterMap_le f (List.range n)
  rw [List.length_range] at whole le
  rw [Nat.lt_iff_le_and_ne, and_iff_right le, ne_eq, whole]
  simp

theorem contents_none (n : Nat) : contents n (fun _ => (none : Option α)) = [] := by
  simp [contents]

end SlotTable
