import Mathlib.Data.List.Nodup
import Mathlib.Data.List.Perm.Basic

/-- A finite map given by its entries, no two of them with one key. -/
structure KeyedList {α κ : Type*} (key : α → κ) where
  entries : List α
  distinct : (entries.map key).Nodup

namespace KeyedList

variable {α κ : Type*} {key : α → κ}

def empty : KeyedList key := ⟨[], List.nodup_nil⟩

theorem eq_of_key {m : KeyedList key} {a b : α} (left : a ∈ m.entries) (right : b ∈ m.entries)
    (same : key a = key b) : a = b :=
  List.inj_on_of_nodup_map m.distinct left right same

section Operations

variable [DecidableEq κ] (m : KeyedList key)

def find? (k : κ) : Option α := m.entries.find? fun a => key a = k

def erase (k : κ) : KeyedList key where
  entries := m.entries.filter fun a => key a ≠ k
  distinct := m.distinct.sublist (List.filter_sublist.map _)

/-- Inserts `a`, in place of an entry with its key if there is one. -/
def insert (a : α) : KeyedList key where
  entries := a :: (m.erase (key a)).entries
  distinct := by
    rw [List.map_cons, List.nodup_cons]
    refine ⟨?_, (m.erase (key a)).distinct⟩
    intro member
    obtain ⟨other, kept, same⟩ := List.mem_map.mp member
    exact absurd same (by simpa using (List.mem_filter.mp kept).2)

end Operations

section Lookup

variable [DecidableEq κ] {m : KeyedList key}

theorem find?_eq_none {k : κ} : m.find? k = none ↔ ∀ a ∈ m.entries, key a ≠ k := by
  simp [find?, List.find?_eq_none]

theorem find?_eq_some {k : κ} {a : α} : m.find? k = some a ↔ a ∈ m.entries ∧ key a = k := by
  constructor
  · intro found
    exact ⟨List.mem_of_find?_eq_some found, by simpa using List.find?_some found⟩
  · rintro ⟨member, rfl⟩
    cases found : m.find? (key a) with
    | none => exact absurd rfl (find?_eq_none.mp found a member)
    | some other =>
      have same : key other = key a := by simpa using List.find?_some found
      rw [eq_of_key (List.mem_of_find?_eq_some found) member same]

theorem erase_of_absent {k : κ} (absent : m.find? k = none) : (m.erase k).entries = m.entries :=
  List.filter_eq_self.mpr fun a member => by simpa using find?_eq_none.mp absent a member

/-- An erase leaves its key absent, and absent keys too. -/
theorem find?_erase {k k' : κ} (gone : k' ≠ k → m.find? k' = none) : (m.erase k).find? k' = none := by
  refine find?_eq_none.mpr fun a member same => ?_
  obtain ⟨kept, other⟩ := List.mem_filter.mp member
  have other : key a ≠ k := by simpa using other
  exact find?_eq_none.mp (gone (same ▸ other)) a kept same

theorem find?_erase_eq (k k' : κ) : (m.erase k).find? k' = if k' = k then none else m.find? k' := by
  split
  · rename_i same
    exact find?_erase fun other => absurd same other
  · rename_i other
    cases found : m.find? k' with
    | none => exact find?_erase fun _ => found
    | some a =>
      obtain ⟨member, rfl⟩ := find?_eq_some.mp found
      exact find?_eq_some.mpr ⟨List.mem_filter.mpr ⟨member, by simpa using other⟩, rfl⟩

theorem find?_insert (a : α) (k : κ) : (m.insert a).find? k = if k = key a then some a else m.find? k := by
  split
  · rename_i same
    exact find?_eq_some.mpr ⟨List.mem_cons_self, same.symm⟩
  · rename_i other
    have behind : (m.insert a).find? k = (m.erase (key a)).find? k :=
      List.find?_cons_of_neg (by simpa using fun same => other (Eq.symm same))
    rw [behind, find?_erase_eq, if_neg other]

/-- The entries are determined by what is found under each key. -/
theorem perm_of_find? {m' : KeyedList key} (same : ∀ k, m.find? k = m'.find? k) : m.entries.Perm m'.entries := by
  refine (List.perm_ext_iff_of_nodup m.distinct.of_map m'.distinct.of_map).mpr fun a => ?_
  have found (m : KeyedList key) : a ∈ m.entries ↔ m.find? (key a) = some a := by simp [find?_eq_some]
  rw [found m, found m', same]

theorem insert_entries {a : α} (absent : m.find? (key a) = none) : (m.insert a).entries = a :: m.entries :=
  congrArg _ (erase_of_absent absent)

/-- The entry of a key and the others. -/
theorem entries_perm [DecidableEq α] {k : κ} {a : α} (found : m.find? k = some a) :
    m.entries.Perm (a :: (m.erase k).entries) := by
  obtain ⟨member, rfl⟩ := find?_eq_some.mp found
  have split := List.perm_cons_erase member
  have once : m.entries.Nodup := m.distinct.of_map
  have others : m.entries.erase a = (m.erase (key a)).entries := by
    rw [once.erase_eq_filter]
    refine List.filter_congr fun other kept => ?_
    by_cases same : other = a
    · simp [same]
    · have keys : key other ≠ key a := fun eq => same (eq_of_key kept member eq)
      simp [same, keys]
  rwa [others] at split

end Lookup

end KeyedList
