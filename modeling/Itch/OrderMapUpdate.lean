import Itch.Lib.Arrays
import Itch.Lib.SlotTable
import Itch.OrderMapProbe

namespace Itch

open Arrays TriangularProbe

namespace BasicOrderMap

variable {G : Group} {k : Nat} {m : BasicOrderMap}

/-- Retagging one slot opens no group that a probe goes past. -/
theorem Packed.retag {i : Nat} {t : UInt8} {m' : BasicOrderMap} (ctrl : m'.ctrl = m.ctrl.set i t)
    (keeps : t = kCtrlEmpty → ¬ m.Packed G (i / G.width)) {g : Nat} (packed : m.Packed G g) : m'.Packed G g := by
  intro member
  obtain ⟨lane, low, found⟩ := mem_group.mp member
  rw [ctrl, List.getElem?_set] at found
  split at found
  · rename_i here
    have wide := G.wide
    have quotient : i / G.width = g := by
      rw [here, Nat.mul_comm, Nat.mul_add_div (by omega), Nat.div_eq_of_lt low, Nat.add_zero]
    split at found
    · exact keeps (Option.some.inj found) (quotient ▸ packed)
    · cases found
  · exact packed (mem_group.mpr ⟨lane, low, found⟩)

/-- One slot retagged and refilled, the counters following. -/
theorem WF.update (wf : m.WF G k) {m' : BasicOrderMap} {i : Nat} {t : UInt8} {v : Option Order} (inside : i < m.capacity)
    (valid : ValidTag t) (keeps : t = kCtrlEmpty → ¬ m.Packed G (i / G.width)) (capacity : m'.capacity = m.capacity)
    (mask : m'.groupMask = m.groupMask) (shift : m'.groupShift = m.groupShift) (ctrl : m'.ctrl = m.ctrl.set i t)
    (slots : m'.slots.length = m.slots.length) (live : m'.live = Function.update m.live i v)
    (here : ∀ o, v = some o → t = m.tag (hash o.ref) ∧ ∃ j < 2 ^ k, visit k (m.home o.ref) j = i / G.width ∧
      ∀ j' < j, m.Packed G (visit k (m.home o.ref) j'))
    (size : m'.size = m'.ctrl.countP (· < 0x80)) (tombstones : m'.tombstones = m'.ctrl.count kCtrlDeleted)
    (growth : m'.growthLeft + m'.size + m'.tombstones = maxLoad m.capacity) : m'.WF G k := by
  have home : ∀ ref, m'.home ref = m.home ref := fun ref => by rw [BasicOrderMap.home, groupIndex, shift]; rfl
  have tag : ∀ h, m'.tag h = m.tag h := fun h => by rw [BasicOrderMap.tag, shift]; rfl
  have within : i < m.ctrl.length := wf.ctrlLength.symm ▸ inside
  have ctrlAt : ∀ j, m'.ctrlAt j = if j = i then t else m.ctrlAt j := fun j => by
    rw [BasicOrderMap.ctrlAt, ctrl, getD_set within]
    rfl
  refine ⟨capacity ▸ wf.capacity, mask ▸ wf.mask, fun ref => home ref ▸ wf.home ref, ?_, ?_, ?_, ?_, ?_, size, tombstones, ?_⟩
  · rw [ctrl, List.length_set, wf.ctrlLength, capacity]
  · rw [slots, wf.slotsLength, capacity]
  · intro u member
    rw [ctrl] at member
    rcases List.mem_or_eq_of_mem_set member with old | rfl
    · exact wf.tags u old
    · exact valid
  · intro j o alive
    rw [live] at alive
    rw [ctrlAt, tag]
    by_cases same : j = i
    · subst same
      rw [Function.update_self] at alive
      rw [if_pos rfl]
      exact (here o alive).1
    · rw [Function.update_of_ne same] at alive
      rw [if_neg same]
      exact wf.tagged j o alive
  · intro j o alive
    rw [live] at alive
    obtain ⟨d, bound, arrives, packed⟩ : ∃ d < 2 ^ k, visit k (m.home o.ref) d = j / G.width ∧
        ∀ j' < d, m.Packed G (visit k (m.home o.ref) j') := by
      by_cases same : j = i
      · subst same
        rw [Function.update_self] at alive
        exact (here o alive).2
      · rw [Function.update_of_ne same] at alive
        exact wf.chain j o alive
    rw [home]
    exact ⟨d, bound, arrives, fun j' before => (packed j' before).retag ctrl keeps⟩
  · rw [growth, capacity]

end BasicOrderMap

end Itch
