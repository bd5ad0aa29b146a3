import Itch.EngineCalls
import Itch.EngineEffects
import Itch.OrderMapChurn

namespace Itch

namespace BasicOrderMap

variable {G : Group} {k : Nat} {m t : BasicOrderMap} {ref : UInt64} {i : Nat}

/-- With fewer than 2 ^ 61 live orders a table of fewer than 2 ^ 64 slots is not doubled to them. -/
theorem fits_of_few (small : m.capacity < 2 ^ 64) (few : m.size < 2 ^ 61) : m.Fits G := by
  intro _
  have groups := Nat.div_mul_le_self m.capacity G.width
  rw [rehashGroups]
  split
  · rename_i grow
    rw [maxLoad] at grow
    rw [Nat.mul_right_comm]
    omega
  · omega

theorem WF.insert_words (wf : m.WF G k) (small : m.capacity < 2 ^ 64) (few : m.size < 2 ^ 61)
    (inserted : m.insert G ref = some (t, i)) : m.insert64 G ref = some (t, i) ∧ t.capacity < 2 ^ 64 := by
  have words := ((fits_of_few small few).insert64_eq ref).trans inserted
  refine ⟨words, ?_⟩
  by_cases spent : m.growthLeft = 0
  · rw [(insert64_rehashes spent words).2.1]
    exact Nat.mod_lt _ (by decide)
  · obtain ⟨t', i', result, -, capacity, -⟩ := wf.insert64_spec spent ref
    obtain ⟨rfl, -⟩ := Prod.mk.inj (Option.some.inj (result.symm.trans words))
    exact capacity.trans_lt small

end BasicOrderMap

namespace OrderMap

variable {G : Group} {m : OrderMap G}

/-- A table of fewer than 2 ^ 64 slots. -/
def Small (m : OrderMap G) : Prop := m.table.capacity < 2 ^ 64

theorem create_small (orders : TableSize G) : (create G orders).Small := orders.fits

/-- The insert of the map is the source's, whose products are 64-bit. -/
theorem insert_words (small : m.Small) (few : m.size < 2 ^ 61) (ref : UInt64) :
    m.table.insert64 G ref = some ((m.insert ref).1.table, (m.insert ref).2.1) ∧ (m.insert ref).1.Small := by
  obtain ⟨k, wf⟩ := m.wf
  unfold insert
  split
  · rename_i table i inserted
    exact wf.insert_words small few inserted
  · rename_i none
    obtain ⟨r, result, -⟩ := m.insert_exists ref
    exact absurd (none.symm.trans result) nofun

theorem erase_small (small : m.Small) (p : m.Pointer) : p.erase.Small := by
  obtain ⟨k, wf⟩ := m.wf
  obtain ⟨-, capacity, -⟩ := BasicOrderMap.erase_spec wf (m.live_pointer p)
  exact capacity.trans_lt small

end OrderMap

namespace BookEngine

variable {B : Build} {e : BookEngine B}

theorem add_small (small : e.orders.Small) (few : e.orders.size < 2 ^ 61) (o : Order) :
    (e.add o.locate o.ref o.side o.shares o.price).1.orders.Small :=
  -- the write of the fields keeps the capacity
  (OrderMap.insert_words small few o.ref).2

theorem takeShares_small (small : e.orders.Small) (p : e.orders.Pointer) (shares : UInt32) :
    (e.takeShares p shares).1.orders.Small := by
  by_cases none : shares = 0
  · rw [takeShares, if_pos none]
    exact small
  · rw [takeShares, if_neg none]
    dsimp only
    have written : (p.write (fun o => { o with shares := p.order.shares - shares }) fun _ => rfl).1.Small := small
    have same := fun o gone => (applyReduce_effect
      { e with orders := (p.write (fun o => { o with shares := p.order.shares - shares }) fun _ => rfl).1 } o shares gone).1
    split
    · exact OrderMap.erase_small written (p.write (fun o => { o with shares := p.order.shares - shares }) fun _ => rfl).2
    · rw [same]
      exact written

theorem remove_small (small : e.orders.Small) (ref : UInt64) : (e.remove ref).1.orders.Small := by
  cases found : e.orders.find ref with
  | none =>
    rw [remove_unknown e found]
    exact small
  | some p =>
    rw [remove, found]
    exact OrderMap.erase_small small p

theorem reduce_small (small : e.orders.Small) (ref : UInt64) (shares : UInt32) : (e.reduce ref shares).1.orders.Small := by
  cases found : e.orders.find ref with
  | none =>
    rw [reduce_unknown e found]
    exact small
  | some p =>
    rw [reduce, found]
    dsimp only
    split
    · exact takeShares_small (e := { e with stats.overfill := e.stats.overfill + 1 }) small p _
    · exact takeShares_small small p _

/-- No call makes a table of 2 ^ 64 slots while fewer than 2 ^ 61 orders are live. -/
theorem call_small (small : e.orders.Small) (few : e.orders.size < 2 ^ 61) (c : EngineCall) : (e.call c).1.orders.Small := by
  cases c with
  | add locate ref side shares price => exact add_small small few ⟨ref, price, shares, locate, side⟩
  | reduce ref shares => exact reduce_small small ref shares
  | remove ref => exact remove_small small ref
  | replace oldRef newRef shares price =>
    cases found : e.orders.find oldRef with
    | none =>
      rw [call, replace_unknown e found]
      exact small
    | some p =>
      have fewer := (remove_effect e found).1.length_eq
      rw [List.length_cons, ← OrderMap.size_eq, ← OrderMap.size_eq] at fewer
      rw [call, replace_eq e found]
      exact add_small (remove_small small oldRef) (by omega) { p.order with ref := newRef, shares, price }

/-- In every run in which fewer than 2 ^ 61 orders are live, the table is the source's: all its
inserts are those with 64-bit products. -/
theorem run_words (B : Build) (expectedOrders : TableSize B.group) {calls : List EngineCall}
    (few : Runs.Every (fun e c => (call e c).1) (fun e _ => e.orders.size < 2 ^ 61) (create B expectedOrders) calls)
    (last : ((create B expectedOrders).run calls).orders.size < 2 ^ 61) (ref : UInt64) :
    let m := ((create B expectedOrders).run calls).orders
    m.table.insert64 B.group ref = some ((m.insert ref).1.table, (m.insert ref).2.1) := by
  have small : ((create B expectedOrders).run calls).orders.Small :=
    @Runs.Every.invariant _ _ _ _ (fun e : BookEngine B => e.orders.Small) (fun _ c small few => call_small small few c)
      _ _ (OrderMap.create_small expectedOrders) few
  exact (OrderMap.insert_words small last ref).1

end BookEngine

end Itch
