import Itch.Publisher
import Itch.SpscRingSteps

namespace Itch

namespace Publisher

variable {B : Build}

/-- The part of `on_book` before its push. -/
def record (s : Publisher) (e : BookEngine B) (m : BookMessage) (u : BookUpdate) : Publisher :=
  if ¬ u.known then s else
  let s := match m with
    | .addOrder _ => { s with peakLive := max s.peakLive e.orders.size }
    | .addOrderMpid _ => { s with peakLive := max s.peakLive e.orders.size }
    | _ => s
  if ¬ u.topChanged then s else
  let t := (e.books u.locate).top
  let new := ⟨t.bidPrice, t.askPrice, t.bidQty, t.askQty, m.header.timestamp⟩
  let s := { s with bbo := Function.update s.bbo u.locate ((s.bbo u.locate).store new) }
  if s.marketOpen && (e.books u.locate).crossed then { s with crossedUpdates := s.crossedUpdates + 1 } else s

/-- The event that `on_book` pushes. -/
def event (s : Publisher) (e : BookEngine B) (m : BookMessage) (u : BookUpdate) : BookEvent :=
  let t := (e.books u.locate).top
  let f := fields m
  { timestamp := m.header.timestamp, recvTsc := s.recvTsc, ref := f.ref, bidQty := t.bidQty, askQty := t.askQty,
    price := u.price, shares := f.shares, bidPrice := t.bidPrice, askPrice := t.askPrice, locate := u.locate,
    kind := f.kind, side := u.side }

/-- `on_book` pushes when the top of a book changed, and counts a push that is refused. -/
theorem onBook_eq (accepts : List BookEvent → Bool) (e : BookEngine B) (s : Publisher) (m : BookMessage) (u : BookUpdate) :
    s.onBook accepts e m u =
      if u.known && u.topChanged then (s.record e m u).offer accepts (s.event e m u) else s.record e m u := by
  unfold onBook record
  cases known : u.known with
  | false => rfl
  | true =>
    cases changed : u.topChanged with
    | false => cases m <;> rfl
    | true =>
      cases m <;>
        · simp only [not_true, if_false, Bool.and_self, if_true]
          unfold offer
          split <;> rfl

end Publisher

/-- The ring between the two threads. -/
abbrev EventRing := SpscRing BookEvent

def EventRing.capacity : Nat := 2 ^ 16

/-- A call of `on_book`: the engine that took `message`, and what that did. An update
of no book changes no top. -/
structure OnBookCall (B : Build) where
  engine : BookEngine B
  message : BookMessage
  update : BookUpdate
  known : update.topChanged = true → update.known = true

/-- What the feed thread does next, once no push is under way. -/
inductive FeedAction (B : Build) where
  | onBook (c : OnBookCall B)
  | on (m : Message)
  | setRecvTsc (t : UInt64)
  | finish

inductive FeedPhase where
  | running
  | pushing (ev : BookEvent)
  | done

/-- Where the consumer is in `consumer_loop`. After an empty batch it loads
`feed_done`, then the tail and the head for `size_approx`. -/
inductive LoopPhase where
  | popping
  | loadDone
  | loadTail
  | loadHead (tail : Nat)
  | exited
  deriving DecidableEq

/-- The feed thread and the consumer thread. The checksum, which only keeps the
strategy hook alive, is left out; `updates`, those given to `on_book`, is history. -/
structure FeedHandler where
  ring : EventRing
  publisher : Publisher := {}
  feedDone : Bool := false
  feed : FeedPhase := .running
  loop : LoopPhase := .popping
  n : Nat := 0
  events : Nat := 0
  updates : List BookUpdate := []

/-- The thread that takes the next step. -/
inductive Turn (B : Build) where
  | feed (action : FeedAction B)
  | consumer

namespace FeedHandler

variable {B : Build}

def initial (slots : Nat → BookEvent) : FeedHandler := { ring := SpscRing.initial 0 slots }

/-- One access of the feed thread to what the threads share, with the local work around it. -/
def feedStep (action : FeedAction B) (s : FeedHandler) : FeedHandler :=
  match s.feed with
  | .running =>
    match action with
    | .onBook c =>
      let t := { s with publisher := s.publisher.record c.engine c.message c.update, updates := s.updates ++ [c.update] }
      if c.update.known && c.update.topChanged then
        { t with feed := .pushing (s.publisher.event c.engine c.message c.update) }
      else t
    | .on m => { s with publisher := s.publisher.on m }
    | .setRecvTsc t => { s with publisher.recvTsc := t }
    | .finish => { s with feedDone := true, feed := .done }
  | .pushing ev =>
    let (e, ring) := s.ring.producerStep EventRing.capacity ev
    match ring.producer with
    | .idle => { s with ring, publisher := s.publisher.offer (fun _ => e ≠ .refused) ev, feed := .running }
    | _ => { s with ring }
  | .done => s

/-- One access of the consumer thread to what the threads share, with the local work around it. -/
def consumerStep (s : FeedHandler) : FeedHandler :=
  match s.loop with
  | .popping =>
    let ring := (s.ring.consumerStep EventRing.capacity 256).2
    match ring.consumer with
    | .idle =>
      let got := s.ring.consumer.got
      { s with ring, n := s.n + got, loop := if got = 0 then .loadDone else .popping }
    | _ => { s with ring }
  | .loadDone => { s with loop := if s.feedDone then .loadTail else .popping }
  | .loadTail => { s with loop := .loadHead s.ring.tail }
  | .loadHead tail =>
    if Wrap.distance (2 ^ 64) tail s.ring.head = 0 then { s with loop := .exited, events := s.n }
    else { s with loop := .popping }
  | .exited => s

def step (s : FeedHandler) : Turn B → FeedHandler
  | .feed action => s.feedStep action
  | .consumer => s.consumerStep

/-- An interleaving of the two threads. -/
def run (s : FeedHandler) (turns : List (Turn B)) : FeedHandler := turns.foldl step s

end FeedHandler

end Itch
