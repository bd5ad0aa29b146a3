import Itch.OrderMapInvariant

namespace Itch

open TriangularProbe

namespace BasicOrderMap

variable {G : Group} {k : Nat} {m : BasicOrderMap}

/-- No slot of group `g` holds a live order of `ref`. -/
def Absent (G : Group) (m : BasicOrderMap) (ref : UInt64) (g : Nat) : Prop :=
  ∀ i o, i / G.width = g → m.live i = some o → o.ref ≠ ref

/-- What `find` gives: a slot where an order of `ref` lives, or none if there is no such slot. -/
def Finds (m : BasicOrderMap) (ref : UInt64) : Option Nat → Prop
  | some i => ∃ o, m.live i = some o ∧ o.ref = ref
  | none => ∀ i o, m.live i = some o → o.ref ≠ ref

section

variable (wf : m.WF G k) (ref : UInt64)
include wf

theorem WF.groups : m.capacity / G.width = 2 ^ k := by
  have wide := G.wide
  rw [wf.capacity, Nat.mul_div_cancel _ (by omega)]

theorem WF.group_step (home j : Nat) : (visit k home j + (j + 1)) &&& m.groupMask = visit k home (j + 1) := by
  rw [wf.mask, visit_succ]

/-- A candidate with the right reference is a live order. -/
theorem WF.candidate {g i : Nat} (inside : g < 2 ^ k)
    (found : (G.matchTag (m.group G g) (m.tag (hash ref))).lanes.find?
      (fun i => (m.slot (g * G.width + i)).ref = ref) = some i) :
    m.Finds ref (some (g * G.width + i)) := by
  have same : (m.slot (g * G.width + i)).ref = ref := by simpa using List.find?_some found
  obtain ⟨t, lane, full⟩ := G.candidate_full _ _ i (wf.group_length inside) (m.tag_lt _) (List.mem_of_find?_eq_some found)
  have low : i < G.width := by
    rw [← wf.group_length inside]
    exact (List.getElem?_eq_some_iff.mp lane).1
  rw [group_getElem? g low] at lane
  exact ⟨_, live_eq_some.mpr ⟨(ctrlAt_of_getElem? lane).symm ▸ full, rfl⟩, same⟩

/-- Without such a candidate the group does not hold the reference. -/
theorem WF.absent {g : Nat} (inside : g < 2 ^ k)
    (missed : (G.matchTag (m.group G g) (m.tag (hash ref))).lanes.find?
      (fun i => (m.slot (g * G.width + i)).ref = ref) = none) : m.Absent G ref g := by
  rintro i o rfl alive rfl
  have wide := G.wide
  have low : i % G.width < G.width := Nat.mod_lt _ (by omega)
  have split : i / G.width * G.width + i % G.width = i := by rw [Nat.mul_comm, Nat.div_add_mod]
  have within : i < m.ctrl.length := wf.ctrlLength.symm ▸ wf.live_lt alive
  have lane : (m.group G (i / G.width))[i % G.width]? = some (m.tag (hash o.ref)) := by
    rw [group_getElem? _ low, split, List.getElem?_eq_getElem within, ← wf.tagged i o alive, ctrlAt,
      List.getD_eq_getElem?_getD, List.getElem?_eq_getElem within, Option.getD_some]
  have candidate := G.candidate_of_eq _ _ _ (wf.group_length inside) (m.tag_lt _) lane
  have different := List.find?_eq_none.mp missed _ candidate
  rw [split, (live_eq_some.mp alive).2] at different
  exact different (decide_eq_true rfl)

/-- At an open group the probe has seen every group the reference could be in. -/
theorem WF.absent_everywhere {j : Nat} (opened : ¬ m.Packed G (visit k (m.home ref) j))
    (absent : ∀ j' ≤ j, m.Absent G ref (visit k (m.home ref) j')) : m.Finds ref none := by
  rintro i o alive rfl
  obtain ⟨j', -, arrives, packed⟩ := wf.chain i o alive
  by_cases seen : j' ≤ j
  · exact absent j' seen i o arrives.symm alive rfl
  · exact opened (packed j (by omega))

/-- A full round of the probe meets an open group. -/
theorem WF.meets_open {j : Nat} (round : j = 2 ^ k) : ¬ ∀ j' < j, m.Packed G (visit k (m.home ref) j') := by
  intro packed
  obtain ⟨g, inside, opened⟩ := wf.exists_open
  obtain ⟨j', bound, rfl⟩ := visit_surjective (m.home ref) inside
  exact opened (packed j' (round ▸ bound))

theorem findFrom_spec (n : Nat) {j : Nat} (left : j + n = 2 ^ k)
    (packed : ∀ j' < j, m.Packed G (visit k (m.home ref) j'))
    (absent : ∀ j' < j, m.Absent G ref (visit k (m.home ref) j')) :
    ∃ r, m.findFrom G ref n (visit k (m.home ref) j) (j + 1) = some r ∧ m.Finds ref r := by
  induction n generalizing j with
  | zero =>
    exact absurd packed (wf.meets_open ref left)
  | succ n ih =>
    have inside := visit_lt k (m.home ref) j
    rw [findFrom]
    split
    · rename_i i found
      exact ⟨_, rfl, wf.candidate ref inside found⟩
    · rename_i missed
      have here := wf.absent ref inside missed
      have sofar : ∀ j' ≤ j, m.Absent G ref (visit k (m.home ref) j') := by
        intro j' le
        rcases Nat.lt_or_eq_of_le le with before | rfl
        · exact absent j' before
        · exact here
      have empty := (G.matchEmpty (m.group G (visit k (m.home ref) j))).any_iff_lanes
      simp only [G.empty_lanes _ _ (wf.group_length inside) wf.group_tags, ← List.mem_iff_getElem?] at empty
      split
      · rename_i some
        exact ⟨_, rfl, wf.absent_everywhere ref (not_not.mpr (empty.mp some)) sofar⟩
      · rename_i none
        rw [wf.group_step]
        have here : m.Packed G (visit k (m.home ref) j) := fun member => none (empty.mpr member)
        exact ih (by omega) (Nat.forall_lt_succ_right.mpr ⟨packed, here⟩) fun j' before => sofar j' (by omega)

theorem find_spec : ∃ r, m.find G ref = some r ∧ m.Finds ref r := by
  have start := visit_zero (wf.home ref)
  have found := findFrom_spec wf ref (2 ^ k) (Nat.zero_add _) (fun _ => by omega) (fun _ => by omega)
  rw [start] at found
  rw [find, wf.groups]
  exact found

/-- What the probe of `insert` gives: a slot that is not full, past packed groups only. -/
theorem freeFrom_spec (n : Nat) {j : Nat} (left : j + n = 2 ^ k)
    (packed : ∀ j' < j, m.Packed G (visit k (m.home ref) j')) :
    ∃ i, m.freeFrom G n (visit k (m.home ref) j) (j + 1) = some i ∧ i < m.capacity ∧ 0x80 ≤ m.ctrlAt i ∧
      ∃ j < 2 ^ k, visit k (m.home ref) j = i / G.width ∧ ∀ j' < j, m.Packed G (visit k (m.home ref) j') := by
  induction n generalizing j with
  | zero =>
    exact absurd packed (wf.meets_open ref left)
  | succ n ih =>
    have inside := visit_lt k (m.home ref) j
    have length := wf.group_length inside
    rw [freeFrom]
    split
    · rename_i some
      obtain ⟨t, lane, free⟩ := (G.free_lanes _ _ length).mp (BitMask.lowest_mem some)
      have low := (List.getElem?_eq_some_iff.mp lane).1
      rw [length] at low
      rw [group_getElem? _ low] at lane
      have within := (List.getElem?_eq_some_iff.mp lane).1
      have quotient : (visit k (m.home ref) j * G.width + (G.matchEmptyOrDeleted (m.group G (visit k (m.home ref) j))).lowest) /
          G.width = visit k (m.home ref) j := by
        rw [Nat.mul_comm, Nat.mul_add_div (by omega), Nat.div_eq_of_lt low, Nat.add_zero]
      exact ⟨_, rfl, wf.ctrlLength ▸ within, (ctrlAt_of_getElem? lane).symm ▸ free, j, by omega, quotient.symm, packed⟩
    · rename_i none
      have here : m.Packed G (visit k (m.home ref) j) := by
        intro member
        obtain ⟨i, lane⟩ := List.mem_iff_getElem?.mp member
        exact none ((BitMask.any_iff_lanes _).mpr ⟨i, (G.free_lanes _ _ length).mpr ⟨_, lane, by decide⟩⟩)
      rw [wf.group_step]
      exact ih (by omega) (Nat.forall_lt_succ_right.mpr ⟨packed, here⟩)

/-- The probe of `insert` ends at a slot that is not full. -/
theorem WF.probe_free : ∃ i, m.freeFrom G (m.capacity / G.width) (m.groupIndex (hash ref)) 1 = some i ∧ i < m.capacity ∧
    0x80 ≤ m.ctrlAt i ∧ ∃ j < 2 ^ k, visit k (m.home ref) j = i / G.width ∧
      ∀ j' < j, m.Packed G (visit k (m.home ref) j') := by
  have start := visit_zero (wf.home ref)
  obtain ⟨i, found, spec⟩ := freeFrom_spec wf ref (2 ^ k) (Nat.zero_add _) (fun _ => by omega)
  rw [start, ← wf.groups] at found
  exact ⟨i, found, spec⟩

end

end BasicOrderMap

end Itch
