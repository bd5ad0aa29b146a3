import Itch.BookBuilder
import Itch.EngineMoves
import Itch.Lib.Runs
import Mathlib.Data.List.Nodup

namespace Itch

namespace OrderMap

variable {G : Group} {m m' : OrderMap G} {ref : UInt64}

/-- No two live orders have one reference. -/
def Distinct (m : OrderMap G) : Prop := (m.orders.map Order.ref).Nodup

theorem find_eq_none_iff : m.find ref = none ↔ ref ∉ m.orders.map Order.ref := by
  constructor
  · intro missing member
    obtain ⟨o, live, same⟩ := List.mem_map.mp member
    exact m.find_none missing o live same
  · intro absent
    exact m.find_eq_none fun o live same => absent (List.mem_map.mpr ⟨o, live, same⟩)

theorem distinct_perm {l : List Order} (same : m.orders.Perm l) : m.Distinct ↔ (l.map Order.ref).Nodup :=
  (same.map Order.ref).nodup_iff

/-- A found order and the others. -/
theorem find_split {p : m.Pointer} (found : m.find ref = some p) :
    ∃ others, m.orders.Perm (p.order :: others) ∧ (m.Distinct ↔ ref ∉ others.map Order.ref ∧ (others.map Order.ref).Nodup) := by
  obtain rfl := m.find_some found
  have split := List.perm_cons_erase (m.pointer_mem p)
  exact ⟨_, split, (distinct_perm split).trans List.nodup_cons⟩

end OrderMap

namespace BookEngine

variable {B : Build} {e : BookEngine B}

/-- What a call adds is not live when it is added. A replace may keep its reference. -/
def AddsFresh (e : BookEngine B) : EngineCall → Prop
  | .add _ ref _ _ _ => e.orders.find ref = none
  | .reduce _ _ => True
  | .remove _ => True
  | .replace oldRef newRef _ _ => e.orders.find oldRef ≠ none → newRef ≠ oldRef → e.orders.find newRef = none

theorem add_distinct (distinct : e.orders.Distinct) (o : Order) :
    (e.add o.locate o.ref o.side o.shares o.price).1.orders.Distinct ↔ e.orders.find o.ref = none := by
  rw [OrderMap.distinct_perm (add_effect e o).1, List.map_cons, List.nodup_cons, ← OrderMap.find_eq_none_iff]
  exact and_iff_left distinct

section Known

variable (distinct : e.orders.Distinct) {ref : UInt64} {p : e.orders.Pointer} (found : e.orders.find ref = some p)
include distinct found

theorem remove_distinct : (e.remove ref).1.orders.Distinct ∧ (e.remove ref).1.orders.find ref = none ∧
    ∀ other, other ≠ ref → ((e.remove ref).1.orders.find other = none ↔ e.orders.find other = none) := by
  obtain ⟨others, split, unique⟩ := OrderMap.find_split found
  obtain ⟨absent, nodup⟩ := unique.mp distinct
  have rest := (remove_moves found).orders others split
  have refs := rest.map Order.ref
  refine ⟨(OrderMap.distinct_perm rest).mpr nodup, ?_, fun other differs => ?_⟩
  · rw [OrderMap.find_eq_none_iff, refs.mem_iff]
    exact absent
  · have named := OrderMap.find_some _ found
    rw [OrderMap.find_eq_none_iff, OrderMap.find_eq_none_iff, refs.mem_iff, (split.map Order.ref).mem_iff, List.map_cons,
      List.mem_cons, named]
    simp [differs]

theorem reduce_distinct (shares : UInt32) : (e.reduce ref shares).1.orders.Distinct := by
  by_cases none : p.order.taken shares = 0
  · rw [reduce_nothing e found none]
    exact distinct
  · obtain ⟨others, split, unique⟩ := OrderMap.find_split found
    obtain ⟨absent, nodup⟩ := unique.mp distinct
    have named := OrderMap.find_some _ found
    rw [OrderMap.distinct_perm ((reduce_moves found none rfl).orders others split), remainder]
    split
    · exact nodup
    · exact List.nodup_cons.mpr ⟨named ▸ absent, nodup⟩

/-- A replace keeps the references distinct exactly if the new one is free once the old one is. -/
theorem replace_distinct {newRef : UInt64} (shares price : UInt32) : (e.replace ref newRef shares price).1.orders.Distinct ↔
    (newRef ≠ ref → e.orders.find newRef = none) := by
  obtain ⟨left, gone, others⟩ := remove_distinct distinct found
  rw [replace_eq e found]
  rw [@add_distinct _ _ left { p.order with ref := newRef, shares, price }]
  dsimp only
  by_cases same : newRef = ref
  · rw [same]
    simp [gone]
  · rw [others newRef same]
    simp [same]

end Known

/-- A call keeps the references distinct exactly if it adds none that is live. -/
theorem call_distinct (distinct : e.orders.Distinct) (c : EngineCall) : (e.call c).1.orders.Distinct ↔ e.AddsFresh c := by
  cases c with
  | add locate ref side shares price => exact add_distinct distinct ⟨ref, price, shares, locate, side⟩
  | reduce ref shares =>
    refine iff_of_true ?_ trivial
    rw [call]
    cases found : e.orders.find ref with
    | none =>
      rw [reduce_unknown e found]
      exact distinct
    | some p => exact reduce_distinct distinct found shares
  | remove ref =>
    refine iff_of_true ?_ trivial
    rw [call]
    cases found : e.orders.find ref with
    | none =>
      rw [remove_unknown e found]
      exact distinct
    | some p => exact (remove_distinct distinct found).1
  | replace oldRef newRef shares price =>
    rw [call, AddsFresh]
    cases found : e.orders.find oldRef with
    | none =>
      rw [replace_unknown e found]
      exact iff_of_true distinct fun live => absurd rfl live
    | some p =>
      rw [replace_distinct distinct found shares price]
      simp

/-- References are unambiguous: no two live orders share one, so a removed one is gone. -/
structure Unambiguous (e : BookEngine B) : Prop where
  distinct : e.orders.Distinct
  removed : ∀ ref, e.orders.find ref ≠ none → (e.remove ref).1.orders.find ref = none

theorem unambiguous_iff : e.Unambiguous ↔ e.orders.Distinct := by
  refine ⟨Unambiguous.distinct, fun distinct => ⟨distinct, fun ref live => ?_⟩⟩
  cases found : e.orders.find ref with
  | none => exact absurd found live
  | some p => exact (remove_distinct distinct found).2.1

theorem create_distinct (B : Build) (expectedOrders : Nat) : (create B expectedOrders).orders.Distinct := by
  rw [create, OrderMap.Distinct, OrderMap.create_orders]
  exact List.nodup_nil

end BookEngine

end Itch
