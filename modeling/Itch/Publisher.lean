import Itch.BboCache
import Itch.BookBuilder

namespace Itch

inductive EventKind where
  | add
  | execute
  | cancel
  | delete
  | replace
  deriving DecidableEq

/-- What consumers get: an event and the top of its book after it. -/
structure BookEvent where
  timestamp : UInt64
  recvTsc : UInt64
  ref : UInt64
  bidQty : UInt64
  askQty : UInt64
  price : UInt32
  shares : UInt32
  bidPrice : UInt32
  askPrice : UInt32
  locate : UInt16
  kind : EventKind
  side : UInt8
  deriving DecidableEq

structure EventFields where
  kind : EventKind
  ref : UInt64
  shares : UInt32

def fields : BookMessage → EventFields
  | .addOrder m => ⟨.add, m.ref, m.shares⟩
  | .addOrderMpid m => ⟨.add, m.ref, m.shares⟩
  | .orderExecuted m => ⟨.execute, m.ref, m.executedShares⟩
  | .orderExecutedWithPrice m => ⟨.execute, m.ref, m.executedShares⟩
  | .orderCancel m => ⟨.cancel, m.ref, m.cancelledShares⟩
  | .orderDelete m => ⟨.delete, m.ref, 0⟩
  | .orderReplace m => ⟨.replace, m.newRef, m.shares⟩

namespace BboCache

variable {ι : Type}

/-- A whole call of `store`. -/
def store (s : BboCache ι) (new : BboSnapshot) : BboCache ι := (writerStep new)^[7] s

/-- What the words of the cache say. -/
def stored (s : BboCache ι) : BboSnapshot := snapshot s.prices s.bidQty s.askQty s.ts

theorem store_stored {s : BboCache ι} (idle : s.writer = .idle) (new : BboSnapshot) :
    (s.store new).stored = new ∧ (s.store new).writer = .idle := by
  have steps : s.store new = { s with
      seq := (s.seq + 2) % 2 ^ 64, prices := pack new.bidPrice new.askPrice, bidQty := new.bidQty, askQty := new.askQty,
      ts := new.timestamp, stores := s.stores ++ [new] } := by
    simp only [store, Function.iterate_succ_apply', Function.iterate_zero, id_eq, writerStep, idle]
  rw [steps]
  refine ⟨?_, idle⟩
  simp only [stored, snapshot, pack_low, pack_high]

end BboCache

/-- The sink of the feed handler: it keeps a cache of the top of every book and
offers an event for each change to a ring. `offered` is history. -/
structure Publisher where
  bbo : UInt16 → BboCache Nat := fun _ => {}
  recvTsc : UInt64 := 0
  dropped : Nat := 0
  crossedUpdates : Nat := 0
  peakLive : Nat := 0
  marketOpen : Bool := false
  offered : List BookEvent := []

namespace Publisher

variable {B : Build}

/-- An event offered to a ring that may be full. -/
def offer (accepts : List BookEvent → Bool) (s : Publisher) (ev : BookEvent) : Publisher :=
  { s with offered := s.offered ++ [ev], dropped := if accepts s.offered then s.dropped else s.dropped + 1 }

/-- `accepts` says whether the ring takes an event after those offered before. -/
def onBook (accepts : List BookEvent → Bool) (e : BookEngine B) (s : Publisher) (m : BookMessage) (u : BookUpdate) :
    Publisher :=
  if ¬ u.known then s else
  let s := match m with
    | .addOrder _ => { s with peakLive := max s.peakLive e.orders.size }
    | .addOrderMpid _ => { s with peakLive := max s.peakLive e.orders.size }
    | _ => s
  if ¬ u.topChanged then s else
  let t := (e.books u.locate).top
  let new := ⟨t.bidPrice, t.askPrice, t.bidQty, t.askQty, m.header.timestamp⟩
  let s := { s with bbo := Function.update s.bbo u.locate ((s.bbo u.locate).store new) }
  let s := if s.marketOpen && (e.books u.locate).crossed then { s with crossedUpdates := s.crossedUpdates + 1 } else s
  let f := fields m
  s.offer accepts
    { timestamp := m.header.timestamp, recvTsc := s.recvTsc, ref := f.ref, bidQty := t.bidQty, askQty := t.askQty,
      price := u.price, shares := f.shares, bidPrice := t.bidPrice, askPrice := t.askPrice, locate := u.locate,
      kind := f.kind, side := u.side }

/-- The symbol directory, which nothing here reads, is left out. -/
def on (s : Publisher) : Message → Publisher
  | .systemEvent m =>
    let s := if m.eventCode = ascii 'Q' then { s with marketOpen := true } else s
    if m.eventCode = ascii 'M' then { s with marketOpen := false } else s
  | _ => s

def sink (accepts : List BookEvent → Bool) : Sink B Publisher where
  onBook := onBook accepts
  on := on

end Publisher

end Itch
