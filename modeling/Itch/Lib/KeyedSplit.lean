import Mathlib.Algebra.Ring.Nat
import Mathlib.Algebra.BigOperators.Group.List.Lemmas
import Mathlib.Data.List.Basic

/-! Lookups in a list that is split around the entry of one key. -/
namespace KeyedSplit

variable {α κ : Type*} [DecidableEq κ] (key : α → κ)

def lookup (k : κ) (l : List α) : Option α := l.find? fun a => key a = k

theorem lookup_of_absent {k : κ} {l : List α} (absent : ∀ a ∈ l, key a ≠ k) : lookup key k l = none := by
  refine List.find?_eq_none.mpr fun a member => ?_
  simpa using absent a member

variable {key} {k : κ} {low high : List α} {before after : Option α}

/-- The entry in the middle is the one a lookup of its key finds. -/
theorem lookup_middle (lower : ∀ a ∈ low, key a ≠ k) (upper : ∀ a ∈ high, key a ≠ k)
    (here : ∀ a, before = some a → key a = k) :
    lookup key k (low ++ before.toList ++ high) = before := by
  rw [lookup, List.find?_append, List.find?_append]
  have left := lookup_of_absent key lower
  have right := lookup_of_absent key upper
  rw [lookup] at left right
  rw [left, right]
  cases before with
  | none => rfl
  | some a => simp [here a rfl]

/-- Lookups of other keys do not see the entry in the middle. -/
theorem lookup_other (here : ∀ a, before = some a → key a = k) (here' : ∀ a, after = some a → key a = k)
    {k' : κ} (other : k' ≠ k) :
    lookup key k' (low ++ after.toList ++ high) = lookup key k' (low ++ before.toList ++ high) := by
  have invisible : ∀ v : Option α, (∀ a, v = some a → key a = k) → v.toList.find? (fun a => key a = k') = none := by
    intro v same
    cases v with
    | none => rfl
    | some a => simp [same a rfl, other.symm]
  simp only [lookup, List.find?_append, invisible _ here, invisible _ here']

/-- One of the keys is that of `a`. -/
theorem sum_at_key {key : α → κ} (f : α → Nat) (a : α) {ks : List κ} (distinct : ks.Nodup) (here : key a ∈ ks) :
    (ks.map fun k => if key a = k then f a else 0).sum = f a := by
  induction ks with
  | nil => cases here
  | cons k ks ih =>
    obtain ⟨fresh, distinct⟩ := List.nodup_cons.mp distinct
    rw [List.map_cons, List.sum_cons]
    by_cases first : key a = k
    · have others : ∀ x ∈ ks.map (fun k' => if key a = k' then f a else 0), x = 0 := by
        intro x member
        obtain ⟨k', there, rfl⟩ := List.mem_map.mp member
        exact if_neg fun same => fresh (first.symm.trans same ▸ there)
      rw [if_pos first, List.sum_eq_zero others, Nat.add_zero]
    · rw [if_neg first, Nat.zero_add]
      exact ih distinct ((List.mem_cons.mp here).resolve_left first)

/-- Grouped by distinct keys that cover it, a list has the sum of its groups. -/
theorem sum_groups {key : α → κ} (f : α → Nat) {ks : List κ} (distinct : ks.Nodup) {l : List α} (cover : ∀ a ∈ l, key a ∈ ks) :
    (ks.map fun k => ((l.filter fun a => key a = k).map f).sum).sum = (l.map f).sum := by
  induction l with
  | nil => simp
  | cons a l ih =>
    obtain ⟨here, cover⟩ := List.forall_mem_cons.mp cover
    have split : ∀ k, (((a :: l).filter fun a => key a = k).map f).sum =
        (if key a = k then f a else 0) + ((l.filter fun a => key a = k).map f).sum := by
      intro k
      rw [List.filter_cons]
      by_cases same : key a = k <;> simp [same]
    simp only [split]
    rw [List.sum_map_add, sum_at_key f a distinct here, ih cover, List.map_cons, List.sum_cons]

end KeyedSplit
