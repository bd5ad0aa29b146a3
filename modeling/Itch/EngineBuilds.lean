import Itch.EngineSteps
import Itch.TopOfBook

namespace Itch

namespace LevelSide

variable {s : LevelSide}

/-- Among ascending keys all searches find the same place. -/
theorem find_search (wf : s.WF) (search search' : LevelSearch) (key : UInt32) : s.find search key = s.find search' key := by
  by_cases none : s.size = 0
  · simp [find, none]
  · have bound := wf.find_spec search' key
    have same := search.finds _ _ _ _ bound
    rw [find, if_pos none]
    exact same

theorem add_search (wf : s.WF) (search search' : LevelSearch) (key shares : UInt32) :
    s.add search key shares = s.add search' key shares := by
  rw [add, add, find_search wf search search']

theorem reduce_search (wf : s.WF) (search search' : LevelSearch) (key shares : UInt32) (gone : Bool) :
    s.reduce search key shares gone = s.reduce search' key shares gone := by
  unfold reduce
  by_cases none : s.size = 0
  · simp [none]
  · have same := find_search wf search search' key
    simp only [find, ne_eq, none, not_false_eq_true, if_true] at same
    simp only [none, if_false, same]

end LevelSide

namespace BookEngine

variable {B B' : Build} {e : BookEngine B} {e' : BookEngine B'} {n : NaiveEngine}

theorem books_of_sides (same : e'.sides = e.sides) : e'.books = e.books := by
  funext locate
  have bids : (e'.books locate).bids = (e.books locate).bids := congrFun (congrFun same locate) true
  have asks : (e'.books locate).asks = (e.books locate).asks := congrFun (congrFun same locate) false
  show OrderBook.mk (e'.books locate).bids (e'.books locate).asks = OrderBook.mk (e.books locate).bids (e.books locate).asks
  rw [bids, asks]

/-- Engines of two builds with the same books and counters, which both hold the live orders. -/
structure Mirrors (e : BookEngine B) (e' : BookEngine B') (n : NaiveEngine) : Prop where
  orders : e.orders.orders.Perm n.live.entries
  orders' : e'.orders.orders.Perm n.live.entries
  sides : e'.sides = e.sides
  stats : e'.stats = e.stats
  wf : e.WF

namespace Mirrors

variable (mirrors : e.Mirrors e' n)
include mirrors

theorem size : e'.orders.size = e.orders.size := by
  rw [OrderMap.size_eq, OrderMap.size_eq]
  exact (mirrors.orders'.trans mirrors.orders.symm).length_eq

/-- Both builds make the same of the side of an order. -/
theorem get (o : Order) : e'.sides.get o = e.sides.get o := by
  rw [mirrors.sides]

theorem add {o : Order} (fresh : n.live.find? o.ref = none) (room : e.RoomFor o) :
    (e.add o.locate o.ref o.side o.shares o.price).1.Mirrors (e'.add o.locate o.ref o.side o.shares o.price).1
        { n with live := n.live.insert o } ∧
      (e'.add o.locate o.ref o.side o.shares o.price).2 = (e.add o.locate o.ref o.side o.shares o.price).2 := by
  obtain ⟨orders, sides, stats, update⟩ := add_effect e o
  obtain ⟨orders', sides', stats', update'⟩ := add_effect e' o
  have entries := KeyedList.insert_entries fresh
  have same : (e.sides.get o).add B.search o.key o.shares = (e.sides.get o).add B'.search o.key o.shares :=
    LevelSide.add_search (mirrors.wf o.locate o.bid) ..
  rw [mirrors.get, ← same] at sides' update'
  refine ⟨⟨?_, ?_, ?_, ?_, (add_reports mirrors.wf room).wf⟩, update'.trans update.symm⟩
  · exact entries ▸ orders.trans (mirrors.orders.cons o)
  · exact entries ▸ orders'.trans (mirrors.orders'.cons o)
  · rw [sides, sides', mirrors.sides]
  · rw [stats, stats', mirrors.stats]

theorem unknown : e.countUnknown.Mirrors e'.countUnknown { n with unknownRef := n.unknownRef + 1 } where
  orders := mirrors.orders
  orders' := mirrors.orders'
  sides := mirrors.sides
  stats := by rw [(countUnknown_effect e).2.2, (countUnknown_effect e').2.2, mirrors.stats]
  wf := mirrors.wf

/-- The order of a reference, in both builds. -/
theorem known (ref : UInt64) :
    (e.orders.find ref = none ∧ e'.orders.find ref = none ∧ n.live.find? ref = none) ∨
      ∃ p p', e.orders.find ref = some p ∧ e'.orders.find ref = some p' ∧ p'.order = p.order ∧
        n.live.find? ref = some p.order ∧ n.live.entries.Perm (p.order :: (n.live.erase ref).entries) := by
  have here := find_live mirrors.orders ref
  have there := find_live mirrors.orders' ref
  cases live : n.live.find? ref with
  | none =>
    rw [live] at here there
    exact .inl ⟨Option.map_eq_none_iff.mp here, Option.map_eq_none_iff.mp there, rfl⟩
  | some o =>
    rw [live] at here there
    obtain ⟨p, found, rfl⟩ := Option.map_eq_some_iff.mp here
    obtain ⟨p', found', order⟩ := Option.map_eq_some_iff.mp there
    exact .inr ⟨p, p', found, found', order, rfl, KeyedList.entries_perm live⟩

section Known

variable {ref : UInt64} {p : e.orders.Pointer} {p' : e'.orders.Pointer} (found : e.orders.find ref = some p)
  (found' : e'.orders.find ref = some p') (order : p'.order = p.order)
  (split : n.live.entries.Perm (p.order :: (n.live.erase ref).entries))
include found found' order

omit found found' in
/-- Both builds find the same level for the order. -/
theorem reduced (shares : UInt32) (gone : Bool) :
    (e'.sides.get p'.order).reduce B'.search p'.order.key shares gone =
      (e.sides.get p.order).reduce B.search p.order.key shares gone := by
  rw [order, mirrors.get]
  exact LevelSide.reduce_search (mirrors.wf _ _) ..

include split

theorem removed : (e.remove ref).1.Mirrors (e'.remove ref).1 { n with live := n.live.erase ref } ∧
    (e'.remove ref).2 = (e.remove ref).2 := by
  obtain ⟨orders, sides, stats, update⟩ := remove_effect e found
  obtain ⟨orders', sides', stats', update'⟩ := remove_effect e' found'
  rw [mirrors.reduced order, order] at sides' stats' update'
  rw [order] at orders'
  refine ⟨⟨?_, ?_, ?_, ?_, (remove_reports mirrors.wf ref).wf⟩, update'.trans update.symm⟩
  · exact (orders.symm.trans (mirrors.orders.trans split)).cons_inv
  · exact (orders'.symm.trans (mirrors.orders'.trans split)).cons_inv
  · rw [sides, sides', mirrors.sides]
  · rw [stats, stats', mirrors.stats]

theorem took (shares : UInt32) :
    (e.reduce ref shares).1.Mirrors (e'.reduce ref shares).1
        ((n.overfilled p.order shares).take p.order (p.order.taken shares)) ∧
      (e'.reduce ref shares).2 = (e.reduce ref shares).2 := by
  have live := n.overfilled_live p.order shares
  have wf := (reduce_reports mirrors.wf ref shares).wf
  generalize n.overfilled p.order shares = m at *
  by_cases none : p.order.taken shares = 0
  · have none' : p'.order.taken shares = 0 := order ▸ none
    rw [reduce_nothing e found none] at wf ⊢
    rw [reduce_nothing e' found' none', NaiveEngine.take, if_pos none]
    refine ⟨⟨live ▸ mirrors.orders, live ▸ mirrors.orders', mirrors.sides, ?_, wf⟩, ?_⟩
    · show overfilled e'.stats p'.order shares = overfilled e.stats p.order shares
      rw [order, mirrors.stats]
    · show BookUpdate.mk true p'.order.price p'.order.locate p'.order.side false = _
      rw [order]
  · have none' : p'.order.taken shares ≠ 0 := order ▸ none
    obtain ⟨orders, sides, stats, update⟩ := reduce_effect e found none rfl
    obtain ⟨orders', sides', stats', update'⟩ := reduce_effect e' found' none' rfl
    rw [mirrors.reduced order, order] at sides' stats' update'
    have after := orders _ (mirrors.orders.trans split)
    have after' := orders' _ (mirrors.orders'.trans (order ▸ split))
    rw [order] at after'
    refine ⟨⟨?_, ?_, ?_, ?_, wf⟩, update'.trans update.symm⟩
    · rw [NaiveEngine.take, if_neg none, live]
      obtain rfl := OrderMap.find_some _ found
      split <;> rename_i gone
      · rw [if_pos gone] at after
        exact after
      · rw [if_neg gone] at after
        exact after
    · rw [NaiveEngine.take, if_neg none, live]
      obtain rfl := OrderMap.find_some _ found
      split <;> rename_i gone
      · rw [if_pos gone] at after'
        exact after'
      · rw [if_neg gone] at after'
        exact after'
    · rw [sides, sides', mirrors.sides]
    · rw [stats, stats', mirrors.stats]

end Known

/-- Every call does the same in both builds, and says the same about it. -/
theorem call {c : EngineCall} (allowed : n.Allows c) (room : e.Room c) :
    (e.call c).1.Mirrors (e'.call c).1 (n.apply c) ∧ (e'.call c).2 = (e.call c).2 := by
  cases c with
  | add locate ref side shares price => exact @Mirrors.add _ _ _ _ _ mirrors ⟨ref, price, shares, locate, side⟩ allowed room
  | reduce ref shares =>
    rw [BookEngine.call, BookEngine.call, NaiveEngine.apply, NaiveEngine.onLive]
    rcases mirrors.known ref with ⟨missing, missing', absent⟩ | ⟨p, p', found, found', order, live, split⟩
    · rw [absent, reduce_unknown e missing, reduce_unknown e' missing']
      exact ⟨mirrors.unknown, rfl⟩
    · rw [live]
      dsimp only
      rw [← Order.taken_eq]
      exact mirrors.took found found' order split shares
  | remove ref =>
    rw [BookEngine.call, BookEngine.call, NaiveEngine.apply, NaiveEngine.onLive]
    rcases mirrors.known ref with ⟨missing, missing', absent⟩ | ⟨p, p', found, found', order, live, split⟩
    · rw [absent, remove_unknown e missing, remove_unknown e' missing']
      exact ⟨mirrors.unknown, rfl⟩
    · rw [live]
      exact mirrors.removed found found' order split
  | replace oldRef newRef shares price =>
    rw [BookEngine.call, BookEngine.call, NaiveEngine.apply, NaiveEngine.onLive]
    rcases mirrors.known oldRef with ⟨missing, missing', absent⟩ | ⟨p, p', found, found', order, live, split⟩
    · rw [absent, replace_unknown e missing, replace_unknown e' missing']
      exact ⟨mirrors.unknown, rfl⟩
    · obtain ⟨rest, reported⟩ := mirrors.removed found found' order split
      have fresh : (n.live.erase oldRef).find? newRef = none :=
        KeyedList.find?_erase fun other => allowed (by rw [live]; exact Option.some_ne_none _) other
      obtain ⟨added, told⟩ := @Mirrors.add _ _ _ _ _ rest { p.order with ref := newRef, shares, price } fresh (room p found)
      rw [live, replace_eq e found, replace_eq e' found', order]
      dsimp only at told ⊢
      exact ⟨added, by rw [told, reported]⟩

omit mirrors in
theorem prepare_sides_eq (same : e'.sides = e.sides) (locate : UInt16) :
    (e'.prepare locate).sides = (e.prepare locate).sides := by
  funext l bid
  rw [prepare_sides, prepare_sides, same]

theorem prepare (locate : UInt16) : (e.prepare locate).Mirrors (e'.prepare locate) n where
  orders := mirrors.orders
  orders' := mirrors.orders'
  sides := prepare_sides_eq mirrors.sides locate
  stats := mirrors.stats
  wf := (prepare_reports mirrors.wf locate).wf

end Mirrors

theorem create_mirrors (B B' : Build) (expectedOrders expectedOrders' : Nat) :
    (create B expectedOrders).Mirrors (create B' expectedOrders') {} where
  orders := (create_tracks B expectedOrders).orders
  orders' := (create_tracks B' expectedOrders').orders
  sides := by
    funext locate bid
    rw [create_sides, create_sides]
  stats := rfl
  wf := create_wf B expectedOrders

end BookEngine

end Itch
