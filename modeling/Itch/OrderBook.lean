import Itch.LevelSide
import Itch.Messages
import Itch.OrderMapPointers

namespace Itch

/-- Both sides of a book at the top; zeros where a side is empty. -/
structure TopOfBook where
  bidPrice : UInt32 := 0
  askPrice : UInt32 := 0
  bidQty : UInt64 := 0
  askQty : UInt64 := 0
  deriving DecidableEq

structure OrderBook where
  bids : LevelSide := {}
  asks : LevelSide := {}

namespace OrderBook

/-- The key that makes a better price higher on both sides. -/
def keyFor (side : UInt8) (price : UInt32) : UInt32 := if side = ascii 'B' then price else ~~~price

def side (b : OrderBook) (s : UInt8) : LevelSide := if s = ascii 'B' then b.bids else b.asks

def setSide (b : OrderBook) (s : UInt8) (levels : LevelSide) : OrderBook :=
  if s = ascii 'B' then { b with bids := levels } else { b with asks := levels }

def top (b : OrderBook) : TopOfBook where
  bidPrice := if b.bids.empty then 0 else b.bids.keyAtLevel 0
  bidQty := if b.bids.empty then 0 else b.bids.qtyAtLevel 0
  askPrice := if b.asks.empty then 0 else ~~~b.asks.keyAtLevel 0
  askQty := if b.asks.empty then 0 else b.asks.qtyAtLevel 0

/-- Best bid at or above best ask. -/
def crossed (b : OrderBook) : Bool :=
  !b.bids.empty && !b.asks.empty && decide (~~~b.asks.keyAtLevel 0 ≤ b.bids.keyAtLevel 0)

end OrderBook

/-- What one order event did. `known` is false for an event about an unknown
order, which has no book. -/
structure BookUpdate where
  known : Bool := false
  price : UInt32 := 0
  locate : UInt16 := 0
  side : UInt8 := 0
  topChanged : Bool := false
  deriving DecidableEq

structure EngineStats where
  unknownRef : Nat := 0
  missingLevel : Nat := 0
  overfill : Nat := 0
  deriving DecidableEq

/-- The kernels a build uses. -/
structure Build where
  level : SimdLevel
  linearChunks : Nat := 4

namespace Build

def search (B : Build) : LevelSearch := B.level.search B.linearChunks

def group (B : Build) : Group :=
  match B.level with
  | .scalar => groupSwar
  | .sse2 => groupSse2
  | .sse41 => groupSse2
  | .avx2 => groupAvx2

end Build

/-- The order map and the book of every locate. -/
structure BookEngine (B : Build) where
  orders : OrderMap B.group
  books : UInt16 → OrderBook := fun _ => {}
  stats : EngineStats := {}

namespace BookEngine

variable {B : Build}

/-- A new engine: the source's for a `TableSize`. -/
def create (B : Build) (expectedOrders : Nat) : BookEngine B where
  orders := .create B.group expectedOrders

def setSide (e : BookEngine B) (locate : UInt16) (side : UInt8) (levels : LevelSide) : BookEngine B :=
  { e with books := Function.update e.books locate ((e.books locate).setSide side levels) }

def add (e : BookEngine B) (locate : UInt16) (ref : UInt64) (side : UInt8) (shares price : UInt32) :
    BookEngine B × BookUpdate :=
  let ⟨_, o⟩ := e.orders.insert ref
  let ⟨orders, _⟩ := o.write (fun o => { o with price, shares, locate, side }) fun _ => rfl
  let (levels, top) := ((e.books locate).side side).add B.search (OrderBook.keyFor side price) shares
  ({ e with orders }.setSide locate side levels, { known := true, price, locate, side, topChanged := top })

/-- Takes shares of `o` from its level. -/
def applyReduce (e : BookEngine B) (o : Order) (shares : UInt32) (gone : Bool) : BookEngine B × BookUpdate :=
  let (levels, r) := ((e.books o.locate).side o.side).reduce B.search (OrderBook.keyFor o.side o.price) shares gone
  let e := e.setSide o.locate o.side levels
  let e := if r = .missingLevel then { e with stats.missingLevel := e.stats.missingLevel + 1 } else e
  (e, { known := true, price := o.price, locate := o.locate, side := o.side, topChanged := r = .topChanged })

def countUnknown (e : BookEngine B) : BookEngine B := { e with stats.unknownRef := e.stats.unknownRef + 1 }

/-- `reduce` of the order at `p` once `shares` is at most what it has. -/
def takeShares (e : BookEngine B) (p : e.orders.Pointer) (shares : UInt32) : BookEngine B × BookUpdate :=
  let o := p.order
  if shares = 0 then (e, { known := true, price := o.price, locate := o.locate, side := o.side }) else
  let left := o.shares - shares
  let ⟨orders, q⟩ := p.write (fun o => { o with shares := left }) fun _ => rfl
  let (e, u) := { e with orders }.applyReduce q.order shares (left = 0)
  (if left = 0 then { e with orders := q.erase } else e, u)

/-- Order Executed, Order Executed With Price and Order Cancel. -/
def reduce (e : BookEngine B) (ref : UInt64) (shares : UInt32) : BookEngine B × BookUpdate :=
  match e.orders.find ref with
  | none => (e.countUnknown, {})
  | some p =>
    if p.order.shares < shares then
      takeShares { e with stats.overfill := e.stats.overfill + 1 } p p.order.shares
    else e.takeShares p shares

/-- Order Delete. -/
def remove (e : BookEngine B) (ref : UInt64) : BookEngine B × BookUpdate :=
  match e.orders.find ref with
  | none => (e.countUnknown, {})
  | some p =>
    let (e, u) := e.applyReduce p.order p.order.shares true
    ({ e with orders := p.erase }, u)

/-- Order Replace: a new order on the side and locate of the old one. -/
def replace (e : BookEngine B) (oldRef newRef : UInt64) (shares price : UInt32) : BookEngine B × BookUpdate :=
  match e.orders.find oldRef with
  | none => (e.countUnknown, {})
  | some p =>
    let o := p.order
    let (e, removed) := e.applyReduce o o.shares true
    let (e, added) := { e with orders := p.erase }.add o.locate newRef o.side shares price
    (e, { added with topChanged := added.topChanged || removed.topChanged })

/-- Allocates the level arrays of a locate. -/
def prepare (e : BookEngine B) (locate : UInt16) : BookEngine B :=
  let b := e.books locate
  let reserved : OrderBook := { bids := b.bids.reserveInitial, asks := b.asks.reserveInitial }
  { e with books := Function.update e.books locate reserved }

end BookEngine

end Itch
