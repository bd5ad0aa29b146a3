import Itch.Lib.TriangularProbe
import Itch.OrderMap

namespace Itch

open TriangularProbe

namespace BasicOrderMap

variable {G : Group} {k : Nat} {m : BasicOrderMap}

/-- The group where the probe for `ref` starts. -/
def home (m : BasicOrderMap) (ref : UInt64) : Nat := m.groupIndex (hash ref)

/-- A group without an empty slot. A probe goes past no other. -/
def Packed (G : Group) (m : BasicOrderMap) (g : Nat) : Prop := kCtrlEmpty ∉ m.group G g

/-- A table of `2 ^ k` groups in which every live order can be found. -/
structure WF (G : Group) (k : Nat) (m : BasicOrderMap) : Prop where
  capacity : m.capacity = 2 ^ k * G.width
  mask : m.groupMask = 2 ^ k - 1
  home : ∀ ref, m.home ref < 2 ^ k
  ctrlLength : m.ctrl.length = m.capacity
  slotsLength : m.slots.length = m.capacity
  tags : ∀ t ∈ m.ctrl, ValidTag t
  tagged : ∀ i o, m.live i = some o → m.ctrlAt i = m.tag (hash o.ref)
  chain : ∀ i o, m.live i = some o → ∃ j < 2 ^ k, visit k (m.home o.ref) j = i / G.width ∧
    ∀ j' < j, m.Packed G (visit k (m.home o.ref) j')
  size : m.size = m.ctrl.countP (· < 0x80)
  tombstones : m.tombstones = m.ctrl.count kCtrlDeleted
  growth : m.growthLeft + m.size + m.tombstones = maxLoad m.capacity

theorem live_eq_some {i : Nat} {o : Order} : m.live i = some o ↔ m.ctrlAt i < 0x80 ∧ m.slot i = o := by
  unfold live
  split <;> rename_i full
  · simp [full]
  · simp [full]

theorem tag_lt (m : BasicOrderMap) (h : UInt64) : m.tag h < 0x80 := by
  have low : (h.toNat >>> (m.groupShift - 7) &&& 127) < 128 := Nat.lt_of_le_of_lt Nat.and_le_right (by decide)
  rw [UInt8.lt_iff_toNat_lt, tag, UInt8.toNat_ofNat', Nat.mod_eq_of_lt (by omega)]
  exact low

theorem group_getElem? (g : Nat) {i : Nat} (inside : i < G.width) : (m.group G g)[i]? = m.ctrl[g * G.width + i]? := by
  rw [group, List.getElem?_take_of_lt inside, List.getElem?_drop]

theorem mem_group {g : Nat} {t : UInt8} : t ∈ m.group G g ↔ ∃ i < G.width, m.ctrl[g * G.width + i]? = some t := by
  rw [List.mem_iff_getElem?]
  constructor
  · rintro ⟨i, found⟩
    have inside : i < G.width := by
      have bound := (List.getElem?_eq_some_iff.mp found).1
      rw [group, List.length_take] at bound
      omega
    exact ⟨i, inside, (group_getElem? g inside).symm.trans found⟩
  · rintro ⟨i, inside, found⟩
    exact ⟨i, (group_getElem? g inside).trans found⟩

theorem ctrlAt_of_getElem? {i : Nat} {t : UInt8} (found : m.ctrl[i]? = some t) : m.ctrlAt i = t := by
  rw [ctrlAt, List.getD_eq_getElem?_getD, found, Option.getD_some]

/-- The three kinds of tag fill the table. -/
theorem length_eq_counts {ctrl : List UInt8} (valid : ∀ t ∈ ctrl, ValidTag t) :
    ctrl.length = ctrl.countP (· < 0x80) + ctrl.count kCtrlDeleted + ctrl.count kCtrlEmpty := by
  induction ctrl with
  | nil => rfl
  | cons t ts ih =>
    have rest := ih fun u member => valid u (List.mem_cons_of_mem t member)
    rcases valid t List.mem_cons_self with fragment | rfl | rfl
    · have notDeleted : t ≠ kCtrlDeleted := by
        rintro rfl
        exact absurd fragment (by decide)
      have notEmpty : t ≠ kCtrlEmpty := by
        rintro rfl
        exact absurd fragment (by decide)
      simp [fragment, List.count_cons_of_ne notDeleted, List.count_cons_of_ne notEmpty]
      omega
    · simp [kCtrlDeleted, kCtrlEmpty] at *
      omega
    · simp [kCtrlDeleted, kCtrlEmpty] at *
      omega

section

variable (wf : m.WF G k)
include wf

theorem WF.group_length {g : Nat} (inside : g < 2 ^ k) : (m.group G g).length = G.width := by
  have room : (g + 1) * G.width ≤ 2 ^ k * G.width := Nat.mul_le_mul_right _ inside
  rw [group, List.length_take, List.length_drop, wf.ctrlLength, wf.capacity]
  rw [Nat.add_one_mul] at room
  omega

theorem WF.group_tags {g : Nat} : ∀ t ∈ m.group G g, ValidTag t :=
  fun t member => wf.tags t (List.mem_of_mem_drop (List.mem_of_mem_take member))

theorem WF.live_lt {i : Nat} {o : Order} (alive : m.live i = some o) : i < m.capacity := by
  obtain ⟨full, -⟩ := live_eq_some.mp alive
  by_contra beyond
  rw [ctrlAt, List.getD_eq_default _ _ (by rw [wf.ctrlLength]; omega)] at full
  exact absurd full (by decide)

/-- The load limit leaves an empty slot somewhere. -/
theorem WF.exists_open : ∃ g < 2 ^ k, ¬ m.Packed G g := by
  have counts := length_eq_counts wf.tags
  have growth := wf.growth
  have wide := G.wide
  have groups : 2 ^ k * 8 ≤ 2 ^ k * G.width := Nat.mul_le_mul_left _ wide
  have some : 0 < 2 ^ k := Nat.two_pow_pos k
  rw [wf.ctrlLength, ← wf.size, ← wf.tombstones] at counts
  rw [maxLoad, wf.capacity] at growth
  rw [wf.capacity] at counts
  have positive : 0 < m.ctrl.count kCtrlEmpty := by omega
  obtain ⟨i, found⟩ := List.mem_iff_getElem?.mp (List.count_pos_iff.mp positive)
  have inside : i < 2 ^ k * G.width := by
    rw [← wf.capacity, ← wf.ctrlLength]
    exact (List.getElem?_eq_some_iff.mp found).1
  have split : i / G.width * G.width + i % G.width = i := by rw [Nat.mul_comm, Nat.div_add_mod]
  refine ⟨i / G.width, Nat.div_lt_of_lt_mul (by rwa [Nat.mul_comm]), ?_⟩
  rw [Packed, not_not, mem_group]
  exact ⟨i % G.width, Nat.mod_lt _ (by omega), split.symm ▸ found⟩

end

end BasicOrderMap

end Itch
