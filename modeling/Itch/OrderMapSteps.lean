import Itch.OrderMapUpdate

namespace Itch

open Arrays TriangularProbe

namespace BasicOrderMap

variable {G : Group} {k : Nat} {m : BasicOrderMap}

theorem ctrlAt_eq {i : Nat} (inside : i < m.ctrl.length) : m.ctrlAt i = m.ctrl[i] :=
  ctrlAt_of_getElem? (List.getElem?_eq_getElem inside)

theorem WF.ctrlAt_mem (wf : m.WF G k) {i : Nat} (inside : i < m.capacity) : m.ctrlAt i ∈ m.ctrl := by
  rw [ctrlAt_eq (wf.ctrlLength.symm ▸ inside)]
  exact List.getElem_mem _

/-- The slot that `insert` claims is empty, or a tombstone that was counted. -/
theorem WF.free_slot (wf : m.WF G k) {i : Nat} (inside : i < m.capacity) (free : 0x80 ≤ m.ctrlAt i) :
    m.ctrlAt i = kCtrlEmpty ∨ m.ctrlAt i = kCtrlDeleted ∧ 0 < m.tombstones := by
  rcases wf.tags _ (wf.ctrlAt_mem inside) with full | deleted | empty
  · exact absurd full (UInt8.not_lt.mpr free)
  · refine .inr ⟨deleted, ?_⟩
    rw [wf.tombstones, List.count_pos_iff]
    exact deleted ▸ wf.ctrlAt_mem inside
  · exact .inl empty

/-- Where a slot is full the size is not zero. -/
theorem WF.size_pos (wf : m.WF G k) {i : Nat} (full : m.ctrlAt i < 0x80) : 0 < m.size := by
  have inside : i < m.capacity := wf.live_lt (if_pos full)
  rw [wf.size, List.countP_pos_iff]
  exact ⟨_, wf.ctrlAt_mem inside, decide_eq_true full⟩

theorem full_countP_set {i : Nat} (inside : i < m.ctrl.length) (t : UInt8) :
    (m.ctrl.set i t).countP (· < 0x80) =
      m.ctrl.countP (· < 0x80) - (if m.ctrlAt i < 0x80 then 1 else 0) + (if t < 0x80 then 1 else 0) := by
  rw [List.countP_set inside, ← ctrlAt_eq inside]
  simp only [decide_eq_true_eq]

theorem deleted_count_set {i : Nat} (inside : i < m.ctrl.length) (t : UInt8) :
    (m.ctrl.set i t).count kCtrlDeleted =
      m.ctrl.count kCtrlDeleted - (if m.ctrlAt i = kCtrlDeleted then 1 else 0) + (if t = kCtrlDeleted then 1 else 0) := by
  rw [List.count_set inside, ← ctrlAt_eq inside]
  simp only [beq_iff_eq]

/-- What retagging and writing one slot does to the live orders. -/
theorem live_set {m' : BasicOrderMap} {i : Nat} (inside : i < m.ctrl.length) (within : i < m.slots.length) {t : UInt8}
    {o : Order} (ctrl : m'.ctrl = m.ctrl.set i t) (slots : m'.slots = m.slots.set i o) :
    m'.live = Function.update m.live i (if t < 0x80 then some o else none) := by
  funext j
  rw [live, ctrlAt, slot, ctrl, slots, getD_set inside, getD_set within]
  by_cases same : j = i
  · subst same
    rw [if_pos rfl, if_pos rfl, Function.update_self]
  · rw [if_neg same, if_neg same, Function.update_of_ne same]
    rfl

section Claim

variable (m) (ref : UInt64) (i : Nat)

theorem claim_ctrl : (m.claim ref i).ctrl = m.ctrl.set i (m.tag (hash ref)) := by
  unfold claim
  dsimp only
  split <;> rfl

theorem claim_slots : (m.claim ref i).slots = m.slots.set i { m.slot i with ref := ref } := by
  unfold claim
  dsimp only
  split <;> rfl

theorem claim_shape : (m.claim ref i).capacity = m.capacity ∧ (m.claim ref i).groupMask = m.groupMask ∧
    (m.claim ref i).groupShift = m.groupShift ∧ (m.claim ref i).size = m.size + 1 := by
  unfold claim
  dsimp only
  split <;> exact ⟨rfl, rfl, rfl, rfl⟩

theorem claim_budget : (m.claim ref i).growthLeft = (if m.ctrlAt i = kCtrlEmpty then m.growthLeft - 1 else m.growthLeft) ∧
    (m.claim ref i).tombstones = if m.ctrlAt i = kCtrlEmpty then m.tombstones else m.tombstones - 1 := by
  unfold claim
  split <;> exact ⟨rfl, rfl⟩

end Claim

/-- `insert` with budget left: a slot that was not full now holds `ref`. -/
theorem place_spec (wf : m.WF G k) (ref : UInt64) (budget : m.growthLeft ≠ 0) :
    ∃ i, m.place G ref = some (m.claim ref i, i) ∧ i < m.capacity ∧ m.live i = none ∧ (m.claim ref i).WF G k ∧
      (m.claim ref i).live = Function.update m.live i (some { m.slot i with ref := ref }) := by
  obtain ⟨i, found, inside, free, chain⟩ := wf.probe_free ref
  have placed : m.place G ref = some (m.claim ref i, i) := congrArg (Option.map _) found
  have within : i < m.ctrl.length := wf.ctrlLength.symm ▸ inside
  have notFull : ¬ m.ctrlAt i < 0x80 := UInt8.not_lt.mpr free
  have dead : m.live i = none := if_neg notFull
  have fragment := m.tag_lt (hash ref)
  have live := live_set within (wf.slotsLength.symm ▸ inside) (claim_ctrl m ref i) (claim_slots m ref i)
  rw [if_pos fragment] at live
  obtain ⟨capacity, mask, shift, size⟩ := claim_shape m ref i
  obtain ⟨growthLeft, tombstones⟩ := claim_budget m ref i
  have fullCount := full_countP_set within (m.tag (hash ref))
  have deletedCount := deleted_count_set within (m.tag (hash ref))
  have notDeleted : m.tag (hash ref) ≠ kCtrlDeleted := fun eq => absurd (eq ▸ fragment) (by decide)
  have notEmpty : m.tag (hash ref) ≠ kCtrlEmpty := fun eq => absurd (eq ▸ fragment) (by decide)
  rw [if_neg notFull, if_pos fragment, ← wf.size] at fullCount
  rw [if_neg notDeleted, ← wf.tombstones] at deletedCount
  have growth := wf.growth
  have slot := wf.free_slot inside free
  refine ⟨i, placed, inside, dead, ?_, live⟩
  refine wf.update inside (.inl fragment) (fun eq => absurd eq notEmpty) capacity mask shift (claim_ctrl m ref i)
    (by rw [claim_slots, List.length_set]) live ?_ ?_ ?_ ?_
  · rintro o ⟨⟩
    exact ⟨rfl, chain⟩
  · rw [claim_ctrl, fullCount, size]
    omega
  · rw [claim_ctrl, deletedCount, tombstones]
    rcases slot with empty | ⟨deleted, -⟩
    · rw [empty, if_pos rfl, if_neg (by decide)]
      rfl
    · rw [deleted, if_neg (by decide), if_pos rfl]
      rfl
  · rw [growthLeft, tombstones, size]
    rcases slot with empty | ⟨deleted, positive⟩
    · rw [empty, if_pos rfl, if_pos rfl]
      omega
    · rw [deleted, if_neg (by decide), if_neg (by decide)]
      omega

/-- Writing fields of a live order other than its reference. -/
theorem write_spec (wf : m.WF G k) {i : Nat} {o o' : Order} (alive : m.live i = some o) (same : o'.ref = o.ref) :
    (m.write i o').WF G k ∧ (m.write i o').live = Function.update m.live i (some o') := by
  have inside := wf.live_lt alive
  have within : i < m.ctrl.length := wf.ctrlLength.symm ▸ inside
  obtain ⟨full, -⟩ := live_eq_some.mp alive
  have kept : (m.write i o').ctrl = m.ctrl.set i (m.ctrlAt i) := by
    rw [ctrlAt_eq within, List.set_getElem_self]
    rfl
  have live := live_set within (wf.slotsLength.symm ▸ inside) kept (show (m.write i o').slots = m.slots.set i o' from rfl)
  rw [if_pos full] at live
  have notEmpty : m.ctrlAt i ≠ kCtrlEmpty := fun eq => absurd (eq ▸ full) (by decide)
  refine ⟨?_, live⟩
  refine wf.update inside (.inl full) (fun eq => absurd eq notEmpty) rfl rfl rfl kept List.length_set live ?_ wf.size
    wf.tombstones wf.growth
  rintro o'' ⟨⟩
  rw [same]
  exact ⟨wf.tagged i o alive, wf.chain i o alive⟩

/-- Erasing a live order, as empty where its group ends probes anyway. -/
theorem erase_spec (wf : m.WF G k) {i : Nat} {o : Order} (alive : m.live i = some o) :
    (m.erase G i).WF G k ∧ (m.erase G i).capacity = m.capacity ∧
      (m.erase G i).live = Function.update m.live i none := by
  have inside := wf.live_lt alive
  have within : i < m.ctrl.length := wf.ctrlLength.symm ▸ inside
  obtain ⟨full, -⟩ := live_eq_some.mp alive
  have wide := G.wide
  have groupInside : i / G.width < 2 ^ k := by
    rw [Nat.div_lt_iff_lt_mul (by omega), ← wf.capacity]
    exact inside
  have opened := (G.matchEmpty (m.group G (i / G.width))).any_iff_lanes
  simp only [G.empty_lanes _ _ (wf.group_length groupInside) wf.group_tags, ← List.mem_iff_getElem?] at opened
  have notDeleted : m.ctrlAt i ≠ kCtrlDeleted := fun eq => absurd (eq ▸ full) (by decide)
  have positive := wf.size_pos full
  have growth := wf.growth
  have unchanged : ∀ t : UInt8, ¬ t < 0x80 → ∀ m' : BasicOrderMap, m'.ctrl = m.ctrl.set i t → m'.slots = m.slots →
      m'.live = Function.update m.live i none := by
    intro t gone m' ctrl slots
    have bound : i < m.slots.length := wf.slotsLength.symm ▸ inside
    have same : m'.slots = m.slots.set i m.slots[i] := by rw [List.set_getElem_self, slots]
    rw [live_set within bound ctrl same, if_neg gone]
  rw [erase]
  dsimp only
  split
  · rename_i some
    have live := unchanged kCtrlEmpty (by decide)
      { m with ctrl := m.ctrl.set i kCtrlEmpty, growthLeft := m.growthLeft + 1, size := m.size - 1 } rfl rfl
    refine ⟨?_, rfl, live⟩
    refine wf.update inside (.inr (.inr rfl)) (fun _ => not_not.mpr (opened.mp some)) rfl rfl rfl rfl rfl live
      (fun _ => nofun) ?_ ?_ ?_
    · rw [full_countP_set within, if_pos full, ← wf.size]
      rfl
    · rw [deleted_count_set within, if_neg notDeleted, ← wf.tombstones]
      rfl
    · change m.growthLeft + 1 + (m.size - 1) + m.tombstones = _
      omega
  · have live := unchanged kCtrlDeleted (by decide)
      { m with ctrl := m.ctrl.set i kCtrlDeleted, tombstones := m.tombstones + 1, size := m.size - 1 } rfl rfl
    refine ⟨?_, rfl, live⟩
    refine wf.update inside (.inr (.inl rfl)) (fun eq => absurd eq (by decide)) rfl rfl rfl rfl rfl live
      (fun _ => nofun) ?_ ?_ ?_
    · rw [full_countP_set within, if_pos full, ← wf.size]
      rfl
    · rw [deleted_count_set within, if_neg notDeleted, ← wf.tombstones]
      rfl
    · change m.growthLeft + (m.size - 1) + (m.tombstones + 1) = _
      omega

end BasicOrderMap

end Itch
