import Itch.EngineCalls
import Itch.EngineEffects
import Itch.Lib.Traced

namespace Itch

/-- What a call has to do with the level search: the arguments of each
`lower_bound_from_back`, and where none is needed. -/
inductive SearchEvent where
  /-- A search of the first `n` of `keys`. -/
  | call (keys : List UInt32) (n : Nat) (key : UInt32)
  /-- An insertion into a side that is empty. -/
  | insertEmpty
  /-- An execute or cancel that takes no shares. -/
  | nothingTaken

/-- A computation with a level search, whose uses are logged. -/
abbrev Searching := Traced LevelSearch SearchEvent

def lowerBoundFromBack (keys : List UInt32) (n : Nat) (key : UInt32) : Searching Nat :=
  fun search => (search.lowerBound keys n key, [.call keys n key])

def noteEvent (event : SearchEvent) : Searching Unit := fun _ => ((), [event])

/-! The calls of the engine with the searches they make. -/

namespace LevelSide

/-- `add` once the position is known. -/
def addAt (s : LevelSide) (pos : Nat) (key shares : UInt32) : LevelSide × Bool :=
  let n := s.size
  if pos < n ∧ keyAt s.keys pos = key then
    ({ s with qty := s.qty.set pos (s.qtyAt pos + shares.toUInt64), orders := s.orders.set pos (s.ordersAt pos + 1) },
      pos = n - 1)
  else
    let s := if n = s.cap then s.grow else s
    let tail := n - pos
    let s := if tail ≠ 0 then
        { s with keys := shiftUp s.keys pos tail, qty := shiftUp s.qty pos tail, orders := shiftUp s.orders pos tail }
      else s
    ({ s with keys := s.keys.set pos key, qty := s.qty.set pos shares.toUInt64, orders := s.orders.set pos 1,
              size := (n + 1) % 2 ^ 32 }, tail = 0)

def addSearching (s : LevelSide) (key shares : UInt32) : Searching (LevelSide × Bool) :=
  if s.size ≠ 0 then do
    let pos ← lowerBoundFromBack s.keys s.size key
    pure (s.addAt pos key shares)
  else do
    noteEvent .insertEmpty
    pure (s.addAt 0 key shares)

/-- `reduce` once the position is known. -/
def reduceAt (s : LevelSide) (pos : Nat) (key shares : UInt32) (orderGone : Bool) : LevelSide × Reduce :=
  let n := s.size
  if n ≤ pos ∨ keyAt s.keys pos ≠ key then (s, .missingLevel) else
  let s := { s with
    qty := s.qty.set pos (s.qtyAt pos - shares.toUInt64)
    orders := s.orders.set pos (s.ordersAt pos - if orderGone then 1 else 0) }
  let s := if s.ordersAt pos = 0 then
      let tail := n - pos - 1
      let s := if tail ≠ 0 then
          { s with keys := shiftDown s.keys pos tail, qty := shiftDown s.qty pos tail,
                   orders := shiftDown s.orders pos tail }
        else s
      { s with size := n - 1 }
    else s
  (s, if pos = n - 1 then .topChanged else .ok)

def reduceSearching (s : LevelSide) (key shares : UInt32) (orderGone : Bool) : Searching (LevelSide × Reduce) :=
  if s.size = 0 then pure (s, .missingLevel) else do
    let pos ← lowerBoundFromBack s.keys s.size key
    pure (s.reduceAt pos key shares orderGone)

/-- What `add` has to do with the level search. -/
def insertEvent (s : LevelSide) (key : UInt32) : SearchEvent :=
  if s.size ≠ 0 then .call s.keys s.size key else .insertEmpty

/-- What `reduce` has to do with it: a side without levels is not searched. -/
def reduceEvents (s : LevelSide) (key : UInt32) : List SearchEvent :=
  if s.size = 0 then [] else [.call s.keys s.size key]

variable (s : LevelSide) (search : LevelSearch) (key shares : UInt32)

theorem value_addSearching : (s.addSearching key shares).value search = s.add search key shares := by
  unfold addSearching add find
  split
  · rfl
  · rfl

theorem log_addSearching : (s.addSearching key shares).log search = [s.insertEvent key] := by
  unfold addSearching insertEvent
  split
  · rfl
  · rfl

theorem value_reduceSearching (gone : Bool) :
    (s.reduceSearching key shares gone).value search = s.reduce search key shares gone := by
  unfold reduceSearching reduce
  dsimp only
  split
  · rfl
  · rfl

theorem log_reduceSearching (gone : Bool) : (s.reduceSearching key shares gone).log search = s.reduceEvents key := by
  unfold reduceSearching reduceEvents
  split
  · rfl
  · rfl

end LevelSide

namespace BookEngine

variable {B : Build}

theorem filled_ref (locate : UInt16) (side : UInt8) (shares price : UInt32) (o : Order) :
    { o with price, shares, locate, side }.ref = o.ref := rfl

theorem left_ref (left : UInt32) (o : Order) : { o with shares := left }.ref = o.ref := rfl

def addSearching (e : BookEngine B) (locate : UInt16) (ref : UInt64) (side : UInt8) (shares price : UInt32) :
    Searching (BookEngine B × BookUpdate) := do
  let ⟨_, o⟩ := e.orders.insert ref
  let ⟨orders, _⟩ := o.write (fun o => { o with price, shares, locate, side }) (filled_ref locate side shares price)
  let (levels, top) ← ((e.books locate).side side).addSearching (OrderBook.keyFor side price) shares
  pure ({ e with orders }.setSide locate side levels, { known := true, price, locate, side, topChanged := top })

def applyReduceSearching (e : BookEngine B) (o : Order) (shares : UInt32) (gone : Bool) :
    Searching (BookEngine B × BookUpdate) := do
  let (levels, r) ← ((e.books o.locate).side o.side).reduceSearching (OrderBook.keyFor o.side o.price) shares gone
  let e := e.setSide o.locate o.side levels
  let e := if r = .missingLevel then { e with stats.missingLevel := e.stats.missingLevel + 1 } else e
  pure (e, { known := true, price := o.price, locate := o.locate, side := o.side, topChanged := r = .topChanged })

def takeSharesSearching (e : BookEngine B) (p : e.orders.Pointer) (shares : UInt32) :
    Searching (BookEngine B × BookUpdate) :=
  let o := p.order
  if shares = 0 then do
    noteEvent .nothingTaken
    pure (e, { known := true, price := o.price, locate := o.locate, side := o.side })
  else do
    let left := o.shares - shares
    let ⟨orders, q⟩ := p.write (fun o => { o with shares := left }) (left_ref left)
    let (e, u) ← { e with orders }.applyReduceSearching q.order shares (left = 0)
    pure (if left = 0 then { e with orders := q.erase } else e, u)

def reduceSearching (e : BookEngine B) (ref : UInt64) (shares : UInt32) : Searching (BookEngine B × BookUpdate) :=
  match e.orders.find ref with
  | none => pure (e.countUnknown, {})
  | some p =>
    if p.order.shares < shares then
      takeSharesSearching { e with stats.overfill := e.stats.overfill + 1 } p p.order.shares
    else e.takeSharesSearching p shares

def removeSearching (e : BookEngine B) (ref : UInt64) : Searching (BookEngine B × BookUpdate) :=
  match e.orders.find ref with
  | none => pure (e.countUnknown, {})
  | some p => do
    let (e, u) ← e.applyReduceSearching p.order p.order.shares true
    pure ({ e with orders := p.erase }, u)

def replaceSearching (e : BookEngine B) (oldRef newRef : UInt64) (shares price : UInt32) :
    Searching (BookEngine B × BookUpdate) :=
  match e.orders.find oldRef with
  | none => pure (e.countUnknown, {})
  | some p => do
    let o := p.order
    let (e, removed) ← e.applyReduceSearching o o.shares true
    let (e, added) ← { e with orders := p.erase }.addSearching o.locate newRef o.side shares price
    pure (e, { added with topChanged := added.topChanged || removed.topChanged })

def callSearching (e : BookEngine B) : EngineCall → Searching (BookEngine B × BookUpdate)
  | .add locate ref side shares price => e.addSearching locate ref side shares price
  | .reduce ref shares => e.reduceSearching ref shares
  | .remove ref => e.removeSearching ref
  | .replace oldRef newRef shares price => e.replaceSearching oldRef newRef shares price

/-- What a call has to do with the level search. -/
def searches (e : BookEngine B) (c : EngineCall) : List SearchEvent := (e.callSearching c).log B.search

open Traced

variable (e : BookEngine B)

theorem value_addSearching (locate : UInt16) (ref : UInt64) (side : UInt8) (shares price : UInt32) :
    (e.addSearching locate ref side shares price).value B.search = e.add locate ref side shares price := by
  rw [addSearching, add, ← LevelSide.value_addSearching]
  rfl

theorem value_applyReduceSearching (o : Order) (shares : UInt32) (gone : Bool) :
    (e.applyReduceSearching o shares gone).value B.search = e.applyReduce o shares gone := by
  rw [applyReduceSearching, applyReduce, ← LevelSide.value_reduceSearching]
  rfl

theorem value_takeSharesSearching (p : e.orders.Pointer) (shares : UInt32) :
    (e.takeSharesSearching p shares).value B.search = e.takeShares p shares := by
  unfold takeSharesSearching takeShares
  dsimp only
  rw [value_ite]
  split
  · rfl
  · rw [← value_applyReduceSearching]
    rfl

/-- The calls are those of the engine. -/
theorem value_callSearching (c : EngineCall) : (e.callSearching c).value B.search = e.call c := by
  cases c with
  | add locate ref side shares price => exact value_addSearching ..
  | reduce ref shares =>
    rw [callSearching, call, reduceSearching, reduce]
    cases e.orders.find ref with
    | none => rfl
    | some p =>
      dsimp only
      rw [value_ite, value_takeSharesSearching, value_takeSharesSearching]
  | remove ref =>
    rw [callSearching, call, removeSearching, remove]
    cases e.orders.find ref with
    | none => rfl
    | some p =>
      dsimp only
      rw [← value_applyReduceSearching]
      rfl
  | replace oldRef newRef shares price =>
    rw [callSearching, call, replaceSearching, replace]
    cases e.orders.find oldRef with
    | none => rfl
    | some p =>
      dsimp only
      rw [← value_applyReduceSearching, ← value_addSearching]
      rfl

theorem searches_add (o : Order) :
    e.searches (.add o.locate o.ref o.side o.shares o.price) = [(e.sides.get o).insertEvent o.key] := by
  rw [← sides_get]
  exact (List.append_nil _).trans (LevelSide.log_addSearching ((e.books o.locate).side o.side) B.search o.key o.shares)

theorem log_applyReduceSearching (o : Order) (shares : UInt32) (gone : Bool) :
    (e.applyReduceSearching o shares gone).log B.search = (e.sides.get o).reduceEvents o.key := by
  rw [← sides_get, applyReduceSearching, log_bind, LevelSide.log_reduceSearching]
  exact List.append_nil _

section Known

variable {e} {ref : UInt64} {p : e.orders.Pointer} (found : e.orders.find ref = some p)
include found

theorem searches_remove : e.searches (.remove ref) = (e.sides.get p.order).reduceEvents p.order.key := by
  rw [searches, callSearching, removeSearching, found]
  dsimp only
  rw [log_bind, log_applyReduceSearching]
  exact List.append_nil _

/-- Execute or cancel: the level is searched unless no shares are taken. -/
theorem searches_reduce (shares : UInt32) : e.searches (.reduce ref shares) =
    if p.order.taken shares = 0 then [.nothingTaken] else (e.sides.get p.order).reduceEvents p.order.key := by
  have take : ∀ (e : BookEngine B) (p : e.orders.Pointer) (shares : UInt32),
      (e.takeSharesSearching p shares).log B.search =
        if shares = 0 then [.nothingTaken] else (e.sides.get p.order).reduceEvents p.order.key := by
    intro e p shares
    unfold takeSharesSearching
    dsimp only
    rw [log_ite]
    split
    · rfl
    · have order := OrderMap.write_order p (fun o => { o with shares := p.order.shares - shares }) (left_ref _)
      rw [log_bind, log_applyReduceSearching, order]
      exact List.append_nil _
  rw [searches, callSearching, reduceSearching, found]
  dsimp only
  rw [log_ite, Order.taken]
  split
  · exact take { e with stats.overfill := e.stats.overfill + 1 } p p.order.shares
  · exact take e p shares

/-- Replace: the level of the old order, then, without it, that of the new one. -/
theorem searches_replace (newRef : UInt64) (shares price : UInt32) : e.searches (.replace ref newRef shares price) =
    (e.sides.get p.order).reduceEvents p.order.key ++
      [((e.remove ref).1.sides.get p.order).insertEvent (OrderBook.keyFor p.order.side price)] := by
  have removed : (e.remove ref).1 = { (e.applyReduce p.order p.order.shares true).1 with orders := p.erase } := by
    rw [remove, found]
  rw [searches, callSearching, replaceSearching, found]
  dsimp only
  rw [log_bind, log_applyReduceSearching, value_applyReduceSearching]
  congr 1
  have added := searches_add (e.remove ref).1 { p.order with ref := newRef, shares, price }
  rw [removed] at added ⊢
  exact (List.append_nil _).trans added

end Known

theorem searches_unknown {ref : UInt64} (missing : e.orders.find ref = none) (newRef : UInt64) (shares price : UInt32) :
    e.searches (.reduce ref shares) = [] ∧ e.searches (.remove ref) = [] ∧
      e.searches (.replace ref newRef shares price) = [] := by
  simp only [searches, callSearching, reduceSearching, removeSearching, replaceSearching, missing]
  exact ⟨rfl, rfl, rfl⟩

end BookEngine

end Itch
