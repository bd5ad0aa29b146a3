import Itch.FeedThreads
import Itch.Market

namespace Itch

namespace NaiveEngine

/-- Whether the live orders after a message fit the arrays and counts of their levels. -/
def ParsesFit (n : NaiveEngine) (msg : List UInt8) : Prop := (n.parse msg).Fits

instance (n : NaiveEngine) (msg : List UInt8) : Decidable (n.ParsesFit msg) := inferInstanceAs (Decidable (n.parse msg).Fits)

/-- The orders that are live after a feed of messages. -/
def liveAfter (msgs : List (List UInt8)) : List Order := (msgs.foldl parse {}).live.entries

/-- A message that the abstract engine allows and the levels have room for. -/
def Takes (n : NaiveEngine) (msg : List UInt8) : Prop := n.ParsesFresh msg ∧ n.ParsesFit msg

instance (n : NaiveEngine) (msg : List UInt8) : Decidable (n.Takes msg) :=
  inferInstanceAs (Decidable (n.ParsesFresh msg ∧ n.ParsesFit msg))

end NaiveEngine

variable {B : Build}

namespace BookEngine

variable {e : BookEngine B} {n : NaiveEngine}

theorem Tracks.roomFor (tracks : e.Tracks n) {o : Order} (fit : FitLevels (o :: n.live.entries)) : e.RoomFor o := by
  rcases tracks.sides.room fit with small | some
  · exact .inl small
  · refine .inr fun none => some ?_
    rw [Sides.get, tracks.sides.levels] at none
    exact summary_eq_none.mp none

/-- Where the live orders after a call fit their levels there is room for it. -/
theorem Tracks.room (tracks : e.Tracks n) (few : FitCounts n.live.entries) {c : EngineCall} (allowed : n.Allows c)
    (fit : FitLevels (n.apply c).live.entries) : e.Room c := by
  cases c with
  | add locate ref side shares price =>
    have entries := @KeyedList.insert_entries _ _ Order.ref _ n.live ⟨ref, price, shares, locate, side⟩ allowed
    exact tracks.roomFor (entries ▸ fit)
  | reduce ref shares => trivial
  | remove ref => trivial
  | replace oldRef newRef shares price =>
    intro p found
    have live := tracks.find oldRef
    rw [found] at live
    have split := KeyedList.entries_perm live.symm
    have counted := NaiveEngine.counts_of_fit n few (.remove oldRef) p.order live.symm
    have fresh : (n.live.erase oldRef).find? newRef = none :=
      KeyedList.find?_erase fun other => allowed (by rw [← live]; exact Option.some_ne_none _) other
    rw [NaiveEngine.apply, NaiveEngine.onLive, ← live] at fit
    dsimp only [Option.map_some] at fit
    rw [KeyedList.insert_entries fresh] at fit
    exact (tracks.removed found split counted).roomFor fit

end BookEngine

namespace FeedParser

variable {p : FeedParser B} {n : NaiveEngine} {accepts : List BookEvent → Bool}

/-- A parser that shows the market as the abstract engine has it. -/
structure Shows (p : FeedParser B) (n : NaiveEngine) : Prop where
  current : p.handler.Current
  tracks : p.handler.engine.Tracks n
  few : FitCounts n.live.entries

theorem Shows.room (shows : p.Shows n) {msg : List UInt8} (takes : n.Takes msg) : p.Room msg := by
  intro formed m decoded
  obtain ⟨fresh, fits⟩ := takes
  have fresh := fresh formed
  have fits := fits.1
  rw [NaiveEngine.parse, if_pos formed] at fits
  rw [decoded] at fresh fits
  exact shows.tracks.room shows.few fresh fits

theorem Shows.parse (shows : p.Shows n) {msg : List UInt8} (takes : n.Takes msg) :
    (p.parse accepts msg).Shows (n.parse msg) := by
  refine ⟨(current_parse shows.current (shows.room takes)).1, ?_, takes.2.2⟩
  obtain ⟨fresh, fits⟩ := takes
  rw [parse_handler, NaiveEngine.parse]
  split <;> rename_i formed
  · refine shows.tracks.on _ shows.few (fresh formed) ?_
    have fits := fits.1
    rw [NaiveEngine.parse, if_pos formed] at fits
    exact fits
  · exact shows.tracks

theorem create_shows (B : Build) (expectedOrders : Nat) (recvTsc : UInt64) : (create B expectedOrders recvTsc).Shows {} where
  current := create_current B expectedOrders recvTsc
  tracks := BookEngine.create_tracks B expectedOrders
  few := by simp [NaiveEngine.empty_fits.2]

theorem Shows.run {msgs : List (List UInt8)} (shows : p.Shows n) (takes : Runs.Every NaiveEngine.parse NaiveEngine.Takes n msgs) :
    (p.run accepts msgs).Shows (msgs.foldl NaiveEngine.parse n) :=
  @Runs.Every.simulates _ _ _ _ (FeedParser.parse accepts) _ (fun n p => p.Shows n)
    (fun _ _ _ shows takes => shows.parse takes) _ _ _ shows takes

/-- The top that a book shows quotes its live orders. -/
theorem Shows.quotes (shows : p.Shows n) (locate : UInt16) : Quotes n.live.entries locate (p.handler.engine.books locate).top :=
  shows.tracks.quotes shows.few locate

/-- After every message each cache quotes the live orders of its book: the highest bid and the
lowest ask, each with all the shares at its price. Each event that was offered came with one of
the messages and quotes the orders that were live after it. -/
theorem market_quoted (B : Build) (expectedOrders : TableSize B.group) (recvTsc : UInt64) (accepts : List BookEvent → Bool)
    {msgs : List (List UInt8)} (takes : Runs.Every NaiveEngine.parse NaiveEngine.Takes {} msgs) :
    let sent := fun k => ((create B expectedOrders recvTsc).run accepts (msgs.take k)).handler.sink
    let last := sent msgs.length
    (∀ locate, Quotes (NaiveEngine.liveAfter msgs) locate (last.bbo locate).top) ∧
    ∀ k ev, last.offered[k]? = some ev → ∃ i < msgs.length,
      (sent i).offered = last.offered.take k ∧ (sent (i + 1)).offered = last.offered.take (k + 1) ∧
        Quotes (NaiveEngine.liveAfter (msgs.take (i + 1))) ev.locate ev.top := by
  dsimp only
  rw [List.take_length]
  have shows : ∀ k, ((create B expectedOrders recvTsc).run accepts (msgs.take k)).Shows
      ((msgs.take k).foldl NaiveEngine.parse {}) := fun k => (create_shows B expectedOrders recvTsc).run (takes.take k)
  constructor
  · intro locate
    have whole := shows msgs.length
    rw [List.take_length] at whole
    rw [whole.current.current locate]
    exact whole.quotes locate
  · intro k ev at'
    obtain ⟨inside, rfl⟩ := List.getElem?_eq_some_iff.mp at'
    obtain ⟨i, less, before, after⟩ := @Runs.exists_step _ _ _ (parse accepts) (fun p : FeedParser B => p.handler.sink.offered)
      (fun _ => True) (fun _ _ _ => trivial) (fun p msg _ => p.parse_offered accepts msg) (create B expectedOrders recvTsc)
      trivial rfl msgs k inside
    refine ⟨i, less, before, after, ?_⟩
    have next := shows (i + 1)
    have here := shows i
    rw [List.take_succ_eq_append_getElem less, List.foldl_append, List.foldl_cons, List.foldl_nil] at after
    have takes := (Runs.every_append.mp (List.take_succ_eq_append_getElem less ▸ takes.take (i + 1))).2
    -- the message announces the tops after it, and its one event is `ev`
    obtain ⟨new, offered, tops, -⟩ := (@current_parse _ accepts _ here.current _ (here.room takes)).2
    have grown : _ ++ new = ((create B expectedOrders recvTsc).run accepts msgs).handler.sink.offered.take (k + 1) :=
      offered.symm.trans after
    change ((create B expectedOrders recvTsc).run accepts (msgs.take i)).handler.sink.offered = _ at before
    rw [List.take_succ_eq_append_getElem inside] at grown
    have one : new = [((create B expectedOrders recvTsc).run accepts msgs).handler.sink.offered[k]] :=
      List.append_cancel_left ((congrArg (· ++ new) before).symm.trans grown)
    have top := tops _ (one ▸ List.mem_singleton_self _)
    have step : (create B expectedOrders recvTsc).run accepts (msgs.take (i + 1)) =
        ((create B expectedOrders recvTsc).run accepts (msgs.take i)).parse accepts msgs[i] := by
      rw [List.take_succ_eq_append_getElem less]
      exact List.foldl_append ..
    rw [top, ← step]
    exact next.quotes _

/-- The feed of two bids shows the higher one. -/
theorem market_quoted_sample :
    (((create ⟨.avx2, 4⟩ 16 0).run (fun _ => true) (bidMessages 100 2)).handler.sink.bbo 0).top.bidPrice = 101 := by
  have shown := (@market_quoted ⟨.avx2, 4⟩ ⟨16, by decide, by decide⟩ 0 (fun _ => true) (bidMessages 100 2)
    (by decide +kernel)).1
  have quotes := (shown 0).bid
  dsimp only at quotes
  rw [List.take_length] at quotes
  have sides : onSide (NaiveEngine.liveAfter (bidMessages 100 2)) 0 true =
      [⟨1, 101, 1, 0, ascii 'B'⟩, ⟨0, 100, 1, 0, ascii 'B'⟩] := by decide +kernel
  rw [sides] at quotes
  exact quotes.first (by decide)

end FeedParser

end Itch
