import Itch.BookSession
import Itch.EngineBuilds
import Itch.LiveReplay
import Itch.PublisherFullSide

namespace Itch

variable {B B' : Build}

namespace Publisher

variable {e : BookEngine B} {e' : BookEngine B'}

/-- A publisher looks at the books of an engine and at how many orders are live. -/
theorem onBook_mirror (books : e'.books = e.books) (size : e'.orders.size = e.orders.size)
    (accepts : List BookEvent → Bool) (s : Publisher) (m : BookMessage) (u : BookUpdate) :
    s.onBook accepts e' m u = s.onBook accepts e m u := by
  unfold onBook
  rw [books, size]

end Publisher

namespace FeedParser

/-- Parsers of two builds that tell the same. -/
structure Mirrors (p : FeedParser B) (p' : FeedParser B') (n : NaiveEngine) : Prop where
  engine : p.handler.engine.Mirrors p'.handler.engine n
  sink : p'.handler.sink = p.handler.sink
  stats : p'.stats = p.stats

variable {p : FeedParser B} {p' : FeedParser B'} {n : NaiveEngine} {accepts : List BookEvent → Bool}

theorem Mirrors.on (mirrors : p.Mirrors p' n) {m : Message} (fresh : n.Fresh m)
    (room : ∀ book, m = .book book → p.handler.engine.Room book.call) :
    (p.handler.on (Publisher.sink accepts) m).engine.Mirrors (p'.handler.on (Publisher.sink accepts) m).engine (n.on m) ∧
      (p'.handler.on (Publisher.sink accepts) m).sink = (p.handler.on (Publisher.sink accepts) m).sink := by
  cases m with
  | book m =>
    rw [BookBuilder.on, BookBuilder.on, BookBuilder.onBookMessage_eq, BookBuilder.onBookMessage_eq]
    obtain ⟨engine, update⟩ := mirrors.engine.call (c := m.call) fresh (room m rfl)
    refine ⟨engine, ?_⟩
    show p'.handler.sink.onBook accepts _ m _ = p.handler.sink.onBook accepts _ m _
    rw [mirrors.sink, update]
    exact Publisher.onBook_mirror (BookEngine.books_of_sides engine.sides) engine.size accepts _ m _
  | stockDirectory m => exact ⟨mirrors.engine.prepare m.locate, congrArg (fun s : Publisher => s.on (.stockDirectory m)) mirrors.sink⟩
  | systemEvent m => exact ⟨mirrors.engine, congrArg (fun s : Publisher => s.on (.systemEvent m)) mirrors.sink⟩
  | other m => exact ⟨mirrors.engine, congrArg (fun s : Publisher => s.on (.other m)) mirrors.sink⟩

theorem Mirrors.parse (mirrors : p.Mirrors p' n) {msg : List UInt8} (fresh : n.ParsesFresh msg) (room : p.Room msg) :
    (p.parse accepts msg).Mirrors (p'.parse accepts msg) (n.parse msg) := by
  rw [FeedParser.parse, FeedParser.parse, NaiveEngine.parse]
  by_cases formed : Parser.WellFormed msg
  · obtain ⟨engine, sink⟩ := @Mirrors.on _ _ _ _ _ accepts mirrors (.decode msg) (fresh formed) (room formed)
    rw [Parser.parse_all formed rfl, Parser.parse_all formed rfl, if_pos formed, mirrors.stats]
    exact ⟨engine, sink, rfl⟩
  · rw [Parser.parse_malformed formed, Parser.parse_malformed formed, if_neg formed, mirrors.stats]
    exact ⟨mirrors.engine, mirrors.sink, rfl⟩

theorem Mirrors.run (mirrors : p.Mirrors p' n) {msgs : List (List UInt8)}
    (fresh : Runs.Every NaiveEngine.parse NaiveEngine.ParsesFresh n msgs) (room : RoomAll accepts p msgs) :
    (p.run accepts msgs).Mirrors (p'.run accepts msgs) (msgs.foldl NaiveEngine.parse n) := by
  induction msgs generalizing p p' n with
  | nil => exact mirrors
  | cons msg msgs ih => exact ih (mirrors.parse fresh.1 room.1) fresh.2 room.2

/-- Two feed handlers that replay one file, built for different machines, sized for different
numbers of orders and in different replay modes, publish the same events, show the same tops and
end with the same books, the same live orders and the same counters. -/
theorem replays_agree (B B' : Build) (expectedOrders : TableSize B.group)
    (expectedOrders' : TableSize B'.group) (recvTsc : UInt64) (accepts : List BookEvent → Bool)
    (cfg cfg' : ReplayConfig) {buf : List UInt8}
    (fresh : Runs.Every NaiveEngine.parse NaiveEngine.ParsesFresh {} (messages buf))
    (room : RoomAll accepts (create B expectedOrders recvTsc) (messages buf)) :
    ∃ r stop r' stop',
      runReplay (BookBuilder.handler (Publisher.sink accepts)) (fun _ => true) buf kSlice cfg
        { parser := create B expectedOrders recvTsc } = some (r, stop) ∧
      runReplay (BookBuilder.handler (Publisher.sink accepts)) (fun _ => true) buf kSlice cfg'
        { parser := create B' expectedOrders' recvTsc } = some (r', stop') ∧
      r'.parser.handler.sink = r.parser.handler.sink ∧
      r'.parser.stats = r.parser.stats ∧
      r'.parser.handler.engine.books = r.parser.handler.engine.books ∧
      r'.parser.handler.engine.stats = r.parser.handler.engine.stats ∧
      r'.parser.handler.engine.orders.orders.Perm r.parser.handler.engine.orders.orders := by
  obtain ⟨r, stop, replayed, parser⟩ := runReplay_parses (Publisher.sink accepts) cfg buf (create B expectedOrders recvTsc)
  obtain ⟨r', stop', replayed', parser'⟩ :=
    runReplay_parses (Publisher.sink accepts) cfg' buf (create B' expectedOrders' recvTsc)
  have start : (create B expectedOrders recvTsc).Mirrors (create B' expectedOrders' recvTsc) {} :=
    ⟨BookEngine.create_mirrors B B' expectedOrders expectedOrders', rfl, rfl⟩
  have mirrors := start.run fresh room
  refine ⟨r, stop, r', stop', replayed, replayed', ?_⟩
  have same : r.parser = (create B expectedOrders recvTsc).run accepts (messages buf) := parser
  have same' : r'.parser = (create B' expectedOrders' recvTsc).run accepts (messages buf) := parser'
  rw [same, same']
  refine ⟨mirrors.sink, mirrors.stats, BookEngine.books_of_sides mirrors.engine.sides, mirrors.engine.stats, ?_⟩
  exact mirrors.engine.orders'.trans mirrors.engine.orders.symm

theorem replays_agree_sample : ∃ r stop r' stop',
    runReplay (BookBuilder.handler (Publisher.sink fun _ => true)) (fun _ => true) ((bidMessages 100 2).flatMap framed) kSlice
      { latency := true } { parser := create ⟨.scalar, 4⟩ 16 0 } = some (r, stop) ∧
    runReplay (BookBuilder.handler (Publisher.sink fun _ => true)) (fun _ => true) ((bidMessages 100 2).flatMap framed) kSlice
      { prefetch := 8 } { parser := create ⟨.avx2, 2⟩ 1000 0 } = some (r', stop') ∧
    r'.parser.handler.sink = r.parser.handler.sink := by
  have written : messages ((bidMessages 100 2).flatMap framed) = bidMessages 100 2 :=
    messages_written rfl (by decide +kernel)
  obtain ⟨r, stop, r', stop', replayed, replayed', sink, -⟩ := @replays_agree ⟨.scalar, 4⟩ ⟨.avx2, 2⟩
    ⟨16, by decide, by decide⟩ ⟨1000, by decide, by decide⟩ 0 (fun _ => true) { latency := true } { prefetch := 8 }
    ((bidMessages 100 2).flatMap framed) (by rw [written]; decide +kernel)
    (by rw [written]; exact @room_bids ⟨.scalar, 4⟩ (fun _ => true) 16 0 100 2 (by decide) (by decide))
  exact ⟨r, stop, r', stop', replayed, replayed', sink⟩

end FeedParser

end Itch
