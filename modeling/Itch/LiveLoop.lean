import Itch.MoldLoss
import Itch.PublisherTop

namespace Itch

/-- A packet as a receiver exposes it. Its stamp is the TSC of the poll for an AF_XDP packet,
and what the clock says when the loop gets to it for another. -/
structure LivePacket where
  data : List UInt8
  tsc : UInt64 := 0

/-- What a turn of the loop sees: the packets of a poll, and whether a signal asked to stop. -/
structure LivePoll where
  packets : List LivePacket
  signalled : Bool := false

namespace FeedParser

variable {B : Build}

def setRecvTsc (p : FeedParser B) (t : UInt64) : FeedParser B :=
  { p with handler := { p.handler with sink := { p.handler.sink with recvTsc := t } } }

end FeedParser

/-- `live_loop` with the parser that it feeds. The total of lost messages is 64-bit. -/
structure LiveLoop (B : Build) where
  parser : FeedParser B
  seq : MoldSequencer := {}
  gaps : Nat := 0
  lost : Nat := 0
  running : Bool := true

namespace LiveLoop

variable {B : Build} (accepts : List BookEvent → Bool)

/-- Before the first poll of a new handler. -/
def initial (B : Build) (expectedOrders : Nat) : LiveLoop B where
  parser := .create B expectedOrders 0

/-- The body of the packet loop. The sequencer calls back once for each message it delivers. -/
def onPacket (s : LiveLoop B) (pkt : LivePacket) : LiveLoop B :=
  let o := s.seq.onPacket pkt.data
  let parser := (o.calls.map fun d => d.message pkt.data).foldl (FeedParser.parse accepts) (s.parser.setRecvTsc pkt.tsc)
  let s := { s with parser, seq := o.sequencer }
  let s := if o.result.gapCount ≠ 0 then
      { s with gaps := s.gaps + 1, lost := (s.lost + o.result.gapCount) % 2 ^ 64 }
    else s
  if o.result.endOfSession then { s with running := false } else s

/-- A turn of the loop. All packets of the poll are handled, those after the end of the session too. -/
def turn (s : LiveLoop B) (poll : LivePoll) : LiveLoop B :=
  let s := poll.packets.foldl (onPacket accepts) s
  if poll.signalled then { s with running := false } else s

/-- The loop over these polls, or until it stops. Its pauses and statistics lines are left out. -/
def run (s : LiveLoop B) : List LivePoll → LiveLoop B
  | [] => s
  | poll :: polls => if s.running then run (s.turn accepts poll) polls else s

end LiveLoop

/-! What does not depend on when packets come, nor on how fast the ring is drained. -/

/-- The event but for the time at which its packet was received. -/
def BookEvent.unstamped (ev : BookEvent) : BookEvent := { ev with recvTsc := 0 }

/-- Publishers that agree but for the receive times and the events that their rings refused. -/
structure Publisher.Alike (s t : Publisher) : Prop where
  bbo : s.bbo = t.bbo
  crossedUpdates : s.crossedUpdates = t.crossedUpdates
  peakLive : s.peakLive = t.peakLive
  marketOpen : s.marketOpen = t.marketOpen
  offered : s.offered.map BookEvent.unstamped = t.offered.map BookEvent.unstamped

namespace Publisher.Alike

variable {B : Build} {s t : Publisher} (alike : s.Alike t)
include alike

theorem symm : t.Alike s where
  bbo := alike.bbo.symm
  crossedUpdates := alike.crossedUpdates.symm
  peakLive := alike.peakLive.symm
  marketOpen := alike.marketOpen.symm
  offered := alike.offered.symm

theorem trans {u : Publisher} (next : t.Alike u) : s.Alike u where
  bbo := alike.bbo.trans next.bbo
  crossedUpdates := alike.crossedUpdates.trans next.crossedUpdates
  peakLive := alike.peakLive.trans next.peakLive
  marketOpen := alike.marketOpen.trans next.marketOpen
  offered := alike.offered.trans next.offered

/-- What `on_book` records does not depend on the times. -/
theorem onBook (accepts accepts' : List BookEvent → Bool) (e : BookEngine B) (m : BookMessage) (u : BookUpdate) :
    (s.onBook accepts e m u).Alike (t.onBook accepts' e m u) := by
  obtain ⟨bbo, recvTsc, dropped, crossedUpdates, peakLive, marketOpen, offered⟩ := s
  obtain ⟨bbo', recvTsc', dropped', crossedUpdates', peakLive', marketOpen', offered'⟩ := t
  obtain ⟨rfl, rfl, rfl, rfl, same⟩ := alike
  dsimp only at same
  unfold Publisher.onBook
  cases m <;> dsimp only <;> split <;> (try split) <;> (try split) <;>
    first
    | exact ⟨rfl, rfl, rfl, rfl, same⟩
    | refine ⟨rfl, rfl, rfl, rfl, ?_⟩
      simp only [Publisher.offer, List.map_append, same]
      rfl

theorem on (m : Message) : (s.on m).Alike (t.on m) := by
  obtain ⟨bbo, crossedUpdates, peakLive, marketOpen, offered⟩ := alike
  cases m with
  | systemEvent m =>
    unfold Publisher.on
    dsimp only
    split <;> split <;> exact ⟨bbo, crossedUpdates, peakLive, by first | rfl | exact marketOpen, offered⟩
  | stockDirectory m => exact ⟨bbo, crossedUpdates, peakLive, marketOpen, offered⟩
  | book m => exact ⟨bbo, crossedUpdates, peakLive, marketOpen, offered⟩
  | other p => exact ⟨bbo, crossedUpdates, peakLive, marketOpen, offered⟩

end Publisher.Alike

/-- Parsers with the same engine, the same counters and publishers that agree. -/
structure FeedParser.Alike {B : Build} (p q : FeedParser B) : Prop where
  engine : p.handler.engine = q.handler.engine
  stats : p.stats = q.stats
  sink : p.handler.sink.Alike q.handler.sink

namespace FeedParser.Alike

variable {B : Build} {p q : FeedParser B}

theorem refl (p : FeedParser B) : p.Alike p := ⟨rfl, rfl, rfl, rfl, rfl, rfl, rfl⟩

theorem setRecvTsc (alike : p.Alike q) (t : UInt64) : (p.setRecvTsc t).Alike q where
  engine := alike.engine
  stats := alike.stats
  sink := ⟨alike.sink.bbo, alike.sink.crossedUpdates, alike.sink.peakLive, alike.sink.marketOpen, alike.sink.offered⟩

theorem on (alike : p.Alike q) (accepts accepts' : List BookEvent → Bool) (m : Message) :
    (p.handler.on (Publisher.sink accepts) m).engine = (q.handler.on (Publisher.sink accepts') m).engine ∧
      (p.handler.on (Publisher.sink accepts) m).sink.Alike (q.handler.on (Publisher.sink accepts') m).sink := by
  obtain ⟨engine, -, sink⟩ := alike
  cases m with
  | book m =>
    rw [BookBuilder.on, BookBuilder.on, BookBuilder.onBookMessage_eq, BookBuilder.onBookMessage_eq, BookBuilder.notify,
      BookBuilder.notify, engine]
    exact ⟨rfl, sink.onBook accepts accepts' _ m _⟩
  | stockDirectory m => exact ⟨congrArg (fun e => e.prepare m.locate) engine, sink.on (.stockDirectory m)⟩
  | systemEvent m => exact ⟨engine, sink.on (.systemEvent m)⟩
  | other p => exact ⟨engine, sink.on (.other p)⟩

theorem parse (alike : p.Alike q) (accepts accepts' : List BookEvent → Bool) (msg : List UInt8) :
    (p.parse accepts msg).Alike (q.parse accepts' msg) := by
  rw [FeedParser.parse, FeedParser.parse]
  by_cases formed : Parser.WellFormed msg
  · obtain ⟨engine, sink⟩ := alike.on accepts accepts' (.decode msg)
    rw [Parser.parse_all formed rfl, Parser.parse_all formed rfl, alike.stats]
    exact ⟨engine, rfl, sink⟩
  · rw [Parser.parse_malformed formed, Parser.parse_malformed formed, alike.stats]
    exact ⟨alike.engine, rfl, alike.sink⟩

/-- Parsers that agree before a run of messages agree after it. -/
theorem foldl (alike : p.Alike q) (accepts accepts' : List BookEvent → Bool) (msgs : List (List UInt8)) :
    (msgs.foldl (FeedParser.parse accepts) p).Alike (msgs.foldl (FeedParser.parse accepts') q) := by
  induction msgs generalizing p q with
  | nil => exact alike
  | cons msg msgs ih => exact ih (alike.parse accepts accepts' msg)

end FeedParser.Alike

end Itch
