import Itch.EngineRoom
import Itch.LocateFilterCalls
import Itch.PrefetchPipeline
import Itch.PublisherFullSide
import Itch.SessionReplay

namespace Itch

variable {B : Build} {τ : Type}

/-- The sink without a filter. -/
def Sink.all (S : Sink B τ) : Sink B τ := { S with wants := none }

/-- The sink that wants some locates only. -/
def Sink.only (S : Sink B τ) (wanted : UInt16 → Bool) : Sink B τ :=
  { S with wants := some fun _ _ locate => wanted locate }

namespace BookBuilder

/-- A parser with a new engine. -/
def start (B : Build) (expectedOrders : Nat) (sink : τ) : Parser (BookBuilder B τ) where
  handler := { engine := .create B expectedOrders, sink }

/-- Whether a message names its order by the right locate and adds only new ones. -/
def Session (p : Parser (BookBuilder B τ)) (msg : List UInt8) : Prop :=
  Parser.WellFormed msg → ∀ m, Message.decode msg = .book m → p.handler.engine.Names m.header.locate m.call

/-- Whether a message opens no level on a side that holds 2 ^ 31 levels. -/
def HasRoom (p : Parser (BookBuilder B τ)) (msg : List UInt8) : Prop :=
  Parser.WellFormed msg → p.handler.Room (.decode msg)

/-- What a locate filter leaves of a run: the same bytes and counters, the wanted
books with their levels, the orders in them, and nothing else. -/
structure Filtered (wanted : UInt16 → Bool) (full only : Parser (BookBuilder B τ) × Nat) : Prop where
  consumed : only.2 = full.2
  counters : only.1.stats = { full.1.stats with filtered := only.1.stats.filtered }
  books : ∀ locate, wanted locate = true → only.1.handler.engine.books locate = full.1.handler.engine.books locate
  empty : ∀ locate, wanted locate = false → only.1.handler.engine.books locate = {}
  live : only.1.handler.engine.orders.orders.Perm
    (full.1.handler.engine.orders.orders.filter fun o => wanted o.locate)
  find : ∀ ref, (only.1.handler.engine.orders.find ref).map (fun p => p.order) =
    ((full.1.handler.engine.orders.find ref).map fun p => p.order).filter fun o => wanted o.locate

variable {S : Sink B τ} {wanted : UInt16 → Bool} {p p' : Parser (BookBuilder B τ)}

/-- The invariant of both runs: equal counters and a restricted engine. -/
def Follows (wanted : UInt16 → Bool) (p p' : Parser (BookBuilder B τ)) : Prop :=
  p'.stats = { p.stats with filtered := p'.stats.filtered } ∧ p.handler.engine.Restricts wanted p'.handler.engine

theorem tally_filtered (stats : ParserStats) (filtered : Nat) (msg : List UInt8) :
    Parser.tally { stats with filtered } msg = { Parser.tally stats msg with filtered } := by
  unfold Parser.tally
  split
  · rfl
  · split
    · rfl
    · split <;> rfl

/-- One message, which the filtered builder gets if it wants its locate. -/
theorem restricts_on {b b' : BookBuilder B τ} {S' : Sink B τ} (restricts : b.engine.Restricts wanted b'.engine) {m : Message}
    (session : ∀ n, m = .book n → b.engine.Names n.header.locate n.call) :
    (b.on S m).engine.Restricts wanted (if wanted m.header.locate then (b'.on S' m).engine else b'.engine) := by
  cases m with
  | book m =>
    rw [on, on, onBookMessage_eq, onBookMessage_eq]
    exact restricts.call (session m rfl)
  | stockDirectory m => exact restricts.prepare m.locate
  | systemEvent m =>
    refine restricts.of_same rfl rfl ?_ ?_
    · split <;> rfl
    · split <;> rfl
  | other p =>
    refine restricts.of_same rfl rfl ?_ ?_
    · split <;> rfl
    · split <;> rfl

theorem follows_parse {msg : List UInt8} (follows : Follows wanted p p') (session : Session p msg) :
    Follows wanted (p.parse (handler S.all) msg) (p'.parse (handler (S.only wanted)) msg) := by
  obtain ⟨counters, restricts⟩ := follows
  have tallies := tally_filtered p.stats p'.stats.filtered msg
  rw [← counters] at tallies
  by_cases formed : Parser.WellFormed msg
  · have engine := @restricts_on _ _ S.all _ _ _ (S.only wanted) restricts _ (session formed)
    have locate : (Message.decode msg).header.locate = loadBe16 msg 1 := by
      rw [Message.header_decode]
      rfl
    rw [locate] at engine
    have filter : (handler (S.only wanted)).wants = some fun _ _ locate => wanted locate := rfl
    rw [Parser.parse_all formed rfl, Parser.parse_filter formed filter]
    dsimp only
    rw [tallies]
    by_cases keep : wanted (loadBe16 msg 1) = true
    · rw [if_pos keep]
      refine ⟨rfl, ?_⟩
      rw [if_pos keep] at engine
      exact engine
    · rw [if_neg keep]
      refine ⟨rfl, ?_⟩
      rw [if_neg keep] at engine
      exact engine
  · rw [Parser.parse_malformed formed, Parser.parse_malformed formed, tallies]
    exact ⟨rfl, restricts⟩

theorem follows_start (expectedOrders : Nat) (sink : τ) :
    Follows wanted (start B expectedOrders sink) (start B expectedOrders sink) :=
  ⟨rfl, BookEngine.create_restricts B expectedOrders⟩

theorem Follows.filtered {n : Nat} (follows : Follows wanted p p') : Filtered wanted (p, n) (p', n) where
  consumed := rfl
  counters := follows.1
  books locate keep := by
    have bids := follows.2.kept locate true keep
    have asks := follows.2.kept locate false keep
    have book := congr (congrArg OrderBook.mk bids) asks
    exact book
  empty locate drop := by
    have bids := follows.2.empty locate true drop
    have asks := follows.2.empty locate false drop
    have book := congr (congrArg OrderBook.mk bids) asks
    exact book
  live := follows.2.orders
  find := follows.2.find

/-- The filtered engine has no sides but those of the other. -/
theorem restricts_wf {e e' : BookEngine B} (restricts : e.Restricts wanted e') (wf : e.WF) : e'.WF := by
  intro locate bid
  cases keep : wanted locate with
  | true =>
    rw [restricts.kept locate bid keep]
    exact wf locate bid
  | false =>
    rw [restricts.empty locate bid keep]
    exact LevelSide.empty_wf

theorem parse_wf_iff (wf : p.handler.engine.WF) (msg : List UInt8) :
    (p.parse (handler S.all) msg).handler.engine.WF ↔ HasRoom p msg := by
  by_cases formed : Parser.WellFormed msg
  · rw [Parser.parse_all formed rfl]
    exact (on_wf_iff S.all wf (.decode msg)).trans ⟨fun room _ => room, fun room => room formed⟩
  · rw [Parser.parse_malformed formed]
    exact iff_of_true wf fun well => absurd well formed

/-- Both runs over a buffer stay within the arrays of their books, and a locate filter keeps
every wanted book exact, with or without a lookahead. -/
structure FiltersExactly (S : Sink B τ) (wanted : UInt16 → Bool) (p : Parser (BookBuilder B τ)) (buf : List UInt8) : Prop where
  full : ∀ k, (((messages buf).take k).foldl (Parser.parse (handler S.all)) p).handler.engine.WF
  only : ∀ k, (((messages buf).take k).foldl (Parser.parse (handler (S.only wanted))) p).handler.engine.WF
  plain : Filtered wanted (p.parseStream (handler S.all) buf) (p.parseStream (handler (S.only wanted)) buf)
  ahead : ∀ distance, Filtered wanted (p.parseStreamPrefetch (handler S.all) distance buf)
    (p.parseStreamPrefetch (handler (S.only wanted)) distance buf)

/-- In a session, a locate filter keeps every wanted book exact if and only if no message of
the unfiltered run opens a level on a side that holds 2 ^ 31 levels. -/
theorem filter_exact (S : Sink B τ) (wanted : UInt16 → Bool) (expectedOrders : TableSize B.group) (sink : τ)
    {buf : List UInt8}
    (session : Runs.Every (Parser.parse (handler S.all)) Session (start B expectedOrders sink) (messages buf)) :
    FiltersExactly S wanted (start B expectedOrders sink) buf ↔
      Runs.Every (Parser.parse (handler S.all)) HasRoom (start B expectedOrders sink) (messages buf) := by
  have within := @Runs.every_iff _ _ _ HasRoom (fun p : Parser (BookBuilder B τ) => p.handler.engine.WF)
    (fun _ msg wf => @parse_wf_iff _ _ S _ wf msg) (start B expectedOrders sink) (messages buf)
    (BookEngine.create_wf B expectedOrders)
  refine ⟨fun exact => within.mp exact.full, fun room => ?_⟩
  have full := within.mpr room
  have follows : ∀ k, Follows wanted (((messages buf).take k).foldl (Parser.parse (handler S.all)) (start B expectedOrders sink))
      (((messages buf).take k).foldl (Parser.parse (handler (S.only wanted))) (start B expectedOrders sink)) := fun k =>
    (session.take k).simulates (fun _ _ _ => follows_parse) (follows_start expectedOrders sink)
  have plain : Filtered wanted ((start B expectedOrders sink).parseStream (handler S.all) buf)
      ((start B expectedOrders sink).parseStream (handler (S.only wanted)) buf) := by
    have whole := follows (messages buf).length
    rw [List.take_length] at whole
    rw [Parser.parseStream, Parser.parseStream, parseStream_eq, parseStream_eq]
    exact whole.filtered
  refine ⟨full, fun k => restricts_wf (follows k).2 (full k), plain, fun distance => ?_⟩
  rw [Parser.parseStreamPrefetch_eq (handler_pure _), Parser.parseStreamPrefetch_eq (handler_pure _)]
  exact plain

section AddOrder

variable {m : MsgAddOrder} (stock : m.stock.length = 8)
include stock

/-- An encoded add of a new order is within a session. -/
theorem session_add (fresh : ∀ o ∈ p.handler.engine.orders.orders, o.ref ≠ m.ref) : Session p m.encode := by
  intro _ n decoded
  rw [Message.decode_add] at decoded
  obtain rfl := Message.book.inj decoded
  obtain ⟨-, ref, -, -, -⟩ := MsgAddOrder.decode_encode stock
  refine ⟨rfl, OrderMap.find_eq_none _ ?_⟩
  rw [ref]
  exact fresh

theorem room_add (room : p.handler.engine.RoomFor ⟨m.ref, m.price, m.shares, m.locate, m.side⟩) : HasRoom p m.encode := by
  intro _
  obtain ⟨a, decoded, call⟩ := MsgAddOrder.call_encode stock
  rw [decoded, Room, call]
  exact room

theorem engine_add : (p.parse (handler S.all) m.encode).handler.engine =
    (p.handler.engine.add m.locate m.ref m.side m.shares m.price).1 := by
  obtain ⟨a, decoded, call⟩ := MsgAddOrder.call_encode stock
  rw [Parser.parse_all (Parser.addOrder_formed stock) rfl]
  change (p.handler.on S.all (.decode m.encode)).engine = _
  rw [decoded, on_engine, call]
  rfl

end AddOrder

def sampleBid (locate : UInt16) (ref : UInt64) : MsgAddOrder :=
  { locate, ref, side := ascii 'B', shares := 5, stock := List.replicate 8 (ascii ' '), price := 100 }

/-- Two bids on different books. -/
def twoBids : List UInt8 :=
  BigEndian.encode 2 36 ++ (sampleBid 3 1).encode ++ (BigEndian.encode 2 36 ++ (sampleBid 4 2).encode)

theorem filter_exact_sample :
    FiltersExactly {} (fun locate => locate = 3) (start ⟨.avx2, 4⟩ 16 ()) twoBids := by
  have records : messages twoBids = [(sampleBid 3 1).encode, (sampleBid 4 2).encode] := by decide
  have none : (start ⟨.avx2, 4⟩ 16 ()).handler.engine.orders.orders = [] := OrderMap.create_orders 16
  have sides := BookEngine.create_sides ⟨.avx2, 4⟩ 16
  have empty : ({} : LevelSide).size < 2 ^ 31 := by decide
  obtain ⟨held, set, -⟩ := (start ⟨.avx2, 4⟩ 16 ()).handler.engine.add_effect ⟨1, 100, 5, 3, ascii 'B'⟩
  have next := @engine_add _ _ {} (start ⟨.avx2, 4⟩ 16 ()) (sampleBid 3 1) rfl
  have session : Runs.Every (Parser.parse (handler (Sink.all {}))) Session (start ⟨.avx2, 4⟩ 16 ()) (messages twoBids) := by
    rw [records]
    refine ⟨session_add rfl (by rw [none]; nofun), session_add rfl fun o member same => ?_, trivial⟩
    rw [next] at member
    rw [none] at held
    obtain rfl := List.mem_singleton.mp (held.mem_iff.mp member)
    exact absurd same (by decide)
  have room : Runs.Every (Parser.parse (handler (Sink.all {}))) HasRoom (start ⟨.avx2, 4⟩ 16 ()) (messages twoBids) := by
    rw [records]
    refine ⟨room_add rfl (.inl ?_), room_add rfl (.inl ?_), trivial⟩
    · exact (congrArg LevelSide.size (sides 3 true)).trans_lt empty
    · rw [next]
      have other := congrFun (congrFun set 4) true
      rw [Sides.set, if_neg (by decide)] at other
      exact (congrArg LevelSide.size (other.trans (sides 4 true))).trans_lt empty
  exact (filter_exact {} (fun locate => locate = 3) ⟨16, by decide, by decide⟩ () session).mpr room

section Overflow

variable {accepts : List BookEvent → Bool} {n : Nat} (recvTsc : UInt64)

theorem messages_bids (first : Nat) :
    messages ((FeedParser.bidMessages first n).flatMap framed) = FeedParser.bidMessages first n :=
  messages_written rfl (FeedParser.bidMessages_short first n)

/-- Bids with new references are a session. -/
theorem session_bids (expectedOrders : Nat) (below : n ≤ 2 ^ 31 + 1) :
    Runs.Every (Parser.parse (handler (Publisher.sink accepts).all)) Session (start B expectedOrders { recvTsc })
      (FeedParser.bidMessages 0 n) := by
  induction n with
  | zero =>
    rw [FeedParser.bidMessages_zero]
    exact trivial
  | succ n ih =>
    rw [FeedParser.bidMessages_succ]
    refine Runs.every_append.mpr ⟨ih (by omega), session_add rfl fun o held same => ?_⟩
    have engine := @FeedParser.run_bids B accepts expectedOrders recvTsc 0 n
    obtain ⟨tracks, -⟩ := BookEngine.tracks_run B expectedOrders (@BookEngine.ascendingBids_allowed 0 n (by omega))
      (BookEngine.ascendingBids_fit (by omega))
    have absent := @BookEngine.bid_fresh 0 n (by omega) _ (BookEngine.naive_ascendingBids (by omega))
    rw [← engine] at tracks
    exact KeyedList.find?_eq_none.mp absent o (tracks.orders.mem_iff.mp held) same

/-- The bid after the first 2 ^ 31 takes the unfiltered run out of the arrays of its side. -/
theorem bids_overflow (expectedOrders : Nat) (full : n = 2 ^ 31) (wanted : UInt16 → Bool) :
    ¬ FiltersExactly (Publisher.sink accepts) wanted (start B expectedOrders { recvTsc })
      ((FeedParser.bidMessages 0 (n + 1)).flatMap framed) := by
  intro exact
  have whole := exact.full (messages ((FeedParser.bidMessages 0 (n + 1)).flatMap framed)).length
  rw [List.take_length, messages_bids] at whole
  have engine := @FeedParser.run_bids B accepts expectedOrders recvTsc 0 (n + 1)
  obtain ⟨none, size⟩ := BookEngine.bid_overflow B expectedOrders full
  rw [← engine] at none size
  exact LevelSide.not_wf_of_lost none ((Nat.succ_pos _).trans_eq size.symm) (whole 0 true)

/-- One bid at each of 2 ^ 31 + 1 prices of a book that is not wanted. -/
theorem unwanted_side_full : Runs.Every (Parser.parse (handler (Publisher.sink fun _ => true).all)) Session
      (start ⟨.avx2, 4⟩ 16 {}) (messages ((FeedParser.bidMessages 0 (2 ^ 31 + 1)).flatMap framed)) ∧
    ¬ FiltersExactly (Publisher.sink fun _ => true) (fun locate => locate = 3) (start ⟨.avx2, 4⟩ 16 {})
      ((FeedParser.bidMessages 0 (2 ^ 31 + 1)).flatMap framed) := by
  rw [messages_bids]
  have session := @session_bids ⟨.avx2, 4⟩ (fun _ => true) (2 ^ 31 + 1) 0 16 (Nat.le_refl _)
  have overflow := @bids_overflow ⟨.avx2, 4⟩ (fun _ => true) (2 ^ 31) 0 16 (Eq.refl _) fun locate => locate = 3
  exact ⟨session, overflow⟩

end Overflow

end BookBuilder

end Itch
