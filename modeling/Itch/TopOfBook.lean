import Itch.EngineCalls
import Itch.EngineEffects
import Itch.LevelSideTouch

namespace Itch

namespace LevelSide

variable {s : LevelSide}

/-- The best level. -/
def best (s : LevelSide) : Option Level := s.levels.getLast?

theorem best_eq (s : LevelSide) : s.best = if s.empty then none else some (s.level (s.size - 1)) := by
  rw [best, levels, empty]
  cases size : s.size with
  | zero => rfl
  | succ n =>
    rw [Arrays.segment_append, List.getLast?_append]
    simp [Arrays.segment]

/-- `add` tells when the best level changed. -/
theorem add_best (search : LevelSearch) (wf : s.WF) (key shares : UInt32) (room : s.size < 2 ^ 31 ∨ s.lookup key ≠ none) :
    (s.add search key shares).1.WF ∧
      ((s.add search key shares).2 = false → (s.add search key shares).1.best = s.best) := by
  obtain ⟨kept, low, high, touch, top⟩ := add_spec search wf key shares room
  refine ⟨kept, fun quiet => touch.getLast?_eq ?_⟩
  rw [top, List.isEmpty_eq_false_iff] at quiet
  exact quiet

/-- `reduce` tells when the best level changed. -/
theorem reduce_best (search : LevelSearch) (wf : s.WF) (key shares : UInt32) (gone : Bool) :
    (s.reduce search key shares gone).1.WF ∧
      ((s.reduce search key shares gone).2 ≠ .topChanged → (s.reduce search key shares gone).1.best = s.best) := by
  rcases reduce_spec search wf key shares gone with ⟨-, missing⟩ | ⟨l, low, high, -, kept, touch, top⟩
  · rw [missing]
    exact ⟨wf, fun _ => rfl⟩
  · refine ⟨kept, fun quiet => touch.getLast?_eq ?_⟩
    intro none
    rw [top, none] at quiet
    exact quiet rfl

/-- Allocating the first arrays keeps the levels, of which there are none. -/
theorem reserveInitial_best (wf : s.WF) : s.reserveInitial.WF ∧ s.reserveInitial.best = s.best := by
  rw [reserveInitial]
  split
  · rename_i unallocated
    have fits := wf.fits
    obtain ⟨kept, size, -, -⟩ := grow_spec wf (by omega) (by omega)
    refine ⟨kept, ?_⟩
    rw [best_eq, best_eq, empty, empty, size, decide_eq_true (by omega), if_pos rfl, if_pos rfl]
  · exact ⟨wf, rfl⟩

end LevelSide

/-- The top that the best levels of both sides make. -/
def TopOfBook.of (bid ask : Option Level) : TopOfBook where
  bidPrice := bid.elim 0 Level.key
  askPrice := ask.elim 0 fun l => ~~~l.key
  bidQty := bid.elim 0 Level.qty
  askQty := ask.elim 0 Level.qty

theorem OrderBook.top_eq (b : OrderBook) : b.top = .of b.bids.best b.asks.best := by
  have back : ∀ s : LevelSide, s.size - 1 - 0 = s.size - 1 := fun _ => rfl
  rw [top, TopOfBook.of, LevelSide.best_eq, LevelSide.best_eq]
  simp only [LevelSide.keyAtLevel, LevelSide.qtyAtLevel, back]
  cases b.bids.empty <;> cases b.asks.empty <;> rfl

namespace BookEngine

variable {B : Build} {e e' : BookEngine B}

theorem top_eq (e : BookEngine B) (locate : UInt16) :
    (e.books locate).top = .of (e.sides locate true).best (e.sides locate false).best :=
  OrderBook.top_eq _

/-- Every side keeps its levels in order. -/
def WF (e : BookEngine B) : Prop := ∀ locate bid, (e.sides locate bid).WF

/-- What an update says about a step: the best levels changed in its book alone, and
only if it says so. -/
structure Reports (e e' : BookEngine B) (u : BookUpdate) : Prop where
  wf : e'.WF
  known : u.topChanged = true → u.known = true
  quiet : ∀ locate bid, ¬ (u.topChanged = true ∧ u.locate = locate) → (e'.sides locate bid).best = (e.sides locate bid).best

/-- The books whose top changed are those that were reported. -/
theorem Reports.top (reports : e.Reports e' u) {locate : UInt16} (quiet : ¬ (u.topChanged = true ∧ u.locate = locate)) :
    (e'.books locate).top = (e.books locate).top := by
  rw [top_eq, top_eq, reports.quiet locate true quiet, reports.quiet locate false quiet]

theorem Reports.of_unchanged {u : BookUpdate} (wf : e.WF) (same : e'.sides = e.sides) (quiet : u.topChanged = false) :
    e.Reports e' u where
  wf := by
    rw [WF, same]
    exact wf
  known top := by
    rw [quiet] at top
    cases top
  quiet _ _ _ := by rw [same]

/-- A step that changes the side of one order. -/
theorem Reports.of_set {o : Order} {t : LevelSide} {u : BookUpdate} (wf : e.WF) (set : e'.sides = e.sides.set o t) (kept : t.WF)
    (locate : u.locate = o.locate) (known : u.known = true)
    (quiet : u.topChanged = false → t.best = (e.sides.get o).best) : e.Reports e' u where
  wf l bid := by
    rw [set, Sides.set]
    split
    · exact kept
    · exact wf l bid
  known _ := known
  quiet l bid calm := by
    rw [set, Sides.set]
    split
    · rename_i here
      obtain ⟨rfl, rfl⟩ := here
      refine quiet (Bool.eq_false_iff.mpr fun top => calm ⟨top, locate⟩)
    · rfl

/-- Two steps on one book. -/
theorem Reports.trans {e'' : BookEngine B} {u u' : BookUpdate} (first : e.Reports e' u) (second : e'.Reports e'' u')
    (same : u.locate = u'.locate) (known : u'.known = true) :
    e.Reports e'' { u' with topChanged := u'.topChanged || u.topChanged } where
  wf := second.wf
  known _ := known
  quiet l bid calm := by
    have late : ¬ (u'.topChanged = true ∧ u'.locate = l) := fun top => calm ⟨by simp [top.1], top.2⟩
    have early : ¬ (u.topChanged = true ∧ u.locate = l) := fun top => calm ⟨by simp [top.1], same.symm.trans top.2⟩
    rw [second.quiet l bid late, first.quiet l bid early]

/-- Whether the side of `o` has a level for it or can open one. -/
def RoomFor (e : BookEngine B) (o : Order) : Prop :=
  (e.sides.get o).size < 2 ^ 31 ∨ (e.sides.get o).lookup o.key ≠ none

/-- Whether no call opens a level on a side that holds 2 ^ 31 levels. A replace adds
its new order after the old one left. -/
def Room (e : BookEngine B) : EngineCall → Prop
  | .add locate ref side shares price => e.RoomFor { ref, price, shares, locate, side }
  | .reduce _ _ => True
  | .remove _ => True
  | .replace oldRef newRef shares price => ∀ p, e.orders.find oldRef = some p →
      (e.remove oldRef).1.RoomFor { p.order with ref := newRef, shares, price }

theorem add_reports (wf : e.WF) {o : Order} (room : e.RoomFor o) :
    e.Reports (e.add o.locate o.ref o.side o.shares o.price).1 (e.add o.locate o.ref o.side o.shares o.price).2 := by
  obtain ⟨-, sides, -, update⟩ := add_effect e o
  obtain ⟨kept, best⟩ := LevelSide.add_best B.search (wf o.locate o.bid) o.key o.shares room
  rw [update]
  exact .of_set wf sides kept rfl rfl best

/-- A step that reduces the level of one order. -/
theorem Reports.of_reduce (wf : e.WF) {o : Order} {shares : UInt32} {gone : Bool}
    (sides : e'.sides = e.sides.set o ((e.sides.get o).reduce B.search o.key shares gone).1) :
    e.Reports e' ⟨true, o.price, o.locate, o.side, ((e.sides.get o).reduce B.search o.key shares gone).2 = .topChanged⟩ := by
  obtain ⟨kept, best⟩ := LevelSide.reduce_best B.search (wf o.locate o.bid) o.key shares gone
  exact .of_set wf sides kept rfl rfl fun quiet => best (of_decide_eq_false quiet)

theorem reduce_reports (wf : e.WF) (ref : UInt64) (shares : UInt32) :
    e.Reports (e.reduce ref shares).1 (e.reduce ref shares).2 := by
  cases found : e.orders.find ref with
  | none =>
    rw [reduce_unknown e found]
    exact .of_unchanged wf rfl rfl
  | some p =>
    by_cases none : p.order.taken shares = 0
    · rw [reduce_nothing e found none]
      exact .of_unchanged wf rfl rfl
    · obtain ⟨-, sides, -, update⟩ := reduce_effect e found none rfl
      rw [update]
      exact .of_reduce wf sides

theorem remove_reports (wf : e.WF) (ref : UInt64) : e.Reports (e.remove ref).1 (e.remove ref).2 := by
  cases found : e.orders.find ref with
  | none =>
    rw [remove_unknown e found]
    exact .of_unchanged wf rfl rfl
  | some p =>
    obtain ⟨-, sides, -, update⟩ := remove_effect e found
    rw [update]
    exact .of_reduce wf sides

theorem replace_reports (wf : e.WF) {oldRef newRef : UInt64} {shares price : UInt32}
    (room : e.Room (.replace oldRef newRef shares price)) :
    e.Reports (e.replace oldRef newRef shares price).1 (e.replace oldRef newRef shares price).2 := by
  cases found : e.orders.find oldRef with
  | none =>
    rw [replace_unknown e found]
    exact .of_unchanged wf rfl rfl
  | some p =>
    have removed := remove_reports wf oldRef
    have added := add_reports removed.wf (room p found)
    obtain ⟨-, -, -, removal⟩ := remove_effect e found
    have locate : (e.remove oldRef).2.locate = p.order.locate := by rw [removal]
    rw [replace_eq e found]
    exact removed.trans added locate rfl

/-- Every call reports the change it makes to the top of a book. -/
theorem call_reports (wf : e.WF) {c : EngineCall} (room : e.Room c) : e.Reports (e.call c).1 (e.call c).2 := by
  cases c with
  | add locate ref side shares price => exact @add_reports _ _ wf ⟨ref, price, shares, locate, side⟩ room
  | reduce ref shares => exact reduce_reports wf ref shares
  | remove ref => exact remove_reports wf ref
  | replace oldRef newRef shares price => exact replace_reports wf room

theorem prepare_reports (wf : e.WF) (locate : UInt16) : e.Reports (e.prepare locate) {} := by
  have side : ∀ l bid, ((e.prepare locate).sides l bid).WF ∧ ((e.prepare locate).sides l bid).best = (e.sides l bid).best := by
    intro l bid
    rw [prepare_sides]
    split
    · exact LevelSide.reserveInitial_best (wf l bid)
    · exact ⟨wf l bid, rfl⟩
  exact ⟨fun l bid => (side l bid).1, nofun, fun l bid _ => (side l bid).2⟩

theorem create_wf (B : Build) (expectedOrders : Nat) : (create B expectedOrders).WF := by
  intro locate bid
  rw [create_sides]
  exact LevelSide.empty_wf

end BookEngine

end Itch
