import Itch.EngineRoom
import Itch.OrderRefs

namespace Itch

namespace BookBuilder

variable {B : Build} {τ : Type} (S : Sink B τ)

/-- A builder on a new engine. -/
def create (B : Build) (expectedOrders : Nat) (sink : τ) : BookBuilder B τ where
  engine := .create B expectedOrders
  sink

/-- The builder after some messages. -/
def run (b : BookBuilder B τ) (messages : List Message) : BookBuilder B τ := messages.foldl (on S) b

/-- A message adds no order whose reference is live. -/
def AddsFresh (b : BookBuilder B τ) : Message → Prop
  | .book m => b.engine.AddsFresh m.call
  | _ => True

theorem on_distinct {b : BookBuilder B τ} (distinct : b.engine.orders.Distinct) (m : Message) :
    (b.on S m).engine.orders.Distinct ↔ b.AddsFresh m := by
  cases m with
  | book m =>
    rw [on_engine]
    exact BookEngine.call_distinct distinct m.call
  | stockDirectory m => exact iff_of_true distinct trivial
  | systemEvent m => exact iff_of_true distinct trivial
  | other type => exact iff_of_true distinct trivial

/-- In all states of a run the engine is within its arrays and references are unambiguous
exactly if every message of it has room for its level and adds no live reference. -/
theorem refs_unambiguous_iff (expectedOrders : TableSize B.group) (sink : τ) (messages : List Message) :
    (∀ k, ((create B expectedOrders sink).run S (messages.take k)).engine.WF ∧
        ((create B expectedOrders sink).run S (messages.take k)).engine.Unambiguous) ↔
      Runs.Every (on S) (fun b m => b.Room m ∧ b.AddsFresh m) (create B expectedOrders sink) messages := by
  simp only [BookEngine.unambiguous_iff]
  exact Runs.every_iff (fun b : BookBuilder B τ => b.engine.WF ∧ b.engine.orders.Distinct)
    (fun _ m holds => and_congr (on_wf_iff S holds.1 m) (on_distinct S holds.2 m))
    ⟨BookEngine.create_wf B expectedOrders, BookEngine.create_distinct B expectedOrders⟩

section Repeated

variable (b : BookBuilder B τ) (m : MsgAddOrder)

/-- The order of an add given twice is live twice. -/
theorem repeated_add_orders : (b.run S [.book (.addOrder m), .book (.addOrder m)]).engine.orders.orders.Perm
    (⟨m.ref, m.price, m.shares, m.locate, m.side⟩ :: ⟨m.ref, m.price, m.shares, m.locate, m.side⟩ :: b.engine.orders.orders) := by
  have first := (BookEngine.add_effect b.engine ⟨m.ref, m.price, m.shares, m.locate, m.side⟩).1
  have second := (BookEngine.add_effect (b.engine.call (.add m.locate m.ref m.side m.shares m.price)).1
    ⟨m.ref, m.price, m.shares, m.locate, m.side⟩).1
  rw [run, List.foldl_cons, List.foldl_cons, List.foldl_nil, on_engine, on_engine]
  exact second.trans (first.cons _)

/-- The second order outlives a delete. -/
theorem repeated_add_ghost {e : BookEngine B} (run : (b.run S [.book (.addOrder m), .book (.addOrder m)]).engine = e) :
    ¬ e.orders.Distinct ∧ e.orders.find m.ref ≠ none ∧ (e.remove m.ref).1.orders.find m.ref ≠ none := by
  have refs := (repeated_add_orders S b m).map Order.ref
  rw [run] at refs
  have live : e.orders.find m.ref ≠ none := by
    rw [Ne, OrderMap.find_eq_none_iff, not_not, refs.mem_iff]
    exact List.mem_cons_self
  refine ⟨fun distinct => ?_, live, ?_⟩
  · have twice := refs.nodup_iff.mp distinct
    exact (List.nodup_cons.mp twice).1 List.mem_cons_self
  · obtain ⟨p, found⟩ := Option.ne_none_iff_exists'.mp live
    have gone := (BookEngine.remove_effect e found).1.map Order.ref
    rw [List.map_cons, OrderMap.find_some _ found] at gone
    rw [Ne, OrderMap.find_eq_none_iff, not_not, (gone.symm.trans refs).cons_inv.mem_iff]
    exact List.mem_cons_self

end Repeated

/-- A bid given twice. -/
def repeatedBid : List Message :=
  let bid : MsgAddOrder :=
    { locate := 1, ref := 1, side := ascii 'B', shares := 10, stock := List.replicate 8 (ascii ' '), price := 100 }
  [.book (.addOrder bid), .book (.addOrder bid)]

theorem repeated_bid_ambiguous : ¬ ∀ k, ((create ⟨.avx2, 4⟩ 16 ()).run {} (repeatedBid.take k)).engine.Unambiguous := by
  intro always
  exact (repeated_add_ghost {} (create ⟨.avx2, 4⟩ 16 ()) _ rfl).1 (always 2).distinct

end BookBuilder

end Itch
