import Itch.PublisherFullSide

namespace Itch

variable {B : Build}

namespace FeedParser

/-- After every message every cache shows the top of its book; the events offered
carry the top of their books, and a book whose top changed has one; and whatever
call is next, it reports the change it makes. -/
theorem top_published (B : Build) (expectedOrders : TableSize B.group) (recvTsc : UInt64) (accepts : List BookEvent → Bool)
    {msgs : List (List UInt8)} {msg : List UInt8} (room : RoomAll accepts (create B expectedOrders recvTsc) (msgs ++ [msg])) :
    let before := ((create B expectedOrders recvTsc).run accepts msgs).handler
    let after := ((create B expectedOrders recvTsc).run accepts (msgs ++ [msg])).handler
    (∀ locate, (after.sink.bbo locate).top = (after.engine.books locate).top) ∧ before.Announces after ∧
      ∀ c, after.engine.Room c → ∀ locate, ((after.engine.call c).1.books locate).top ≠ (after.engine.books locate).top →
        (after.engine.call c).2.topChanged = true ∧ (after.engine.call c).2.locate = locate := by
  obtain ⟨earlier, last⟩ := Runs.every_append.mp room
  have current := run_current (create_current B expectedOrders recvTsc) earlier
  obtain ⟨after, announces⟩ := @current_parse _ accepts _ current _ last
  have step : (create B expectedOrders recvTsc).run accepts (msgs ++ [msg]) =
      ((create B expectedOrders recvTsc).run accepts msgs).parse accepts msg := by
    rw [run, List.foldl_append]
    rfl
  dsimp only
  rw [step]
  refine ⟨after.current, announces, fun c room locate changed => ?_⟩
  by_contra silent
  exact changed ((BookEngine.call_reports after.wf room).top silent)

theorem top_published_sample :
    (((create ⟨.avx2, 4⟩ 16 0).run (fun _ => true) (bidMessages 100 1 ++ [(bidMessage 1 101).encode])).handler.sink.bbo 0).top =
      (((create ⟨.avx2, 4⟩ 16 0).run (fun _ => true) (bidMessages 100 1 ++ [(bidMessage 1 101).encode])).handler.engine.books
        0).top := by
  have room := @room_bids ⟨.avx2, 4⟩ (fun _ => true) 16 0 100 2 (by decide) (by decide)
  rw [bidMessages_succ] at room
  exact (top_published ⟨.avx2, 4⟩ ⟨16, by decide, by decide⟩ 0 (fun _ => true) room).1 0

/-- With one bid at each of 2 ^ 31 prices and one below them, the cache is behind. -/
theorem stale_run (expectedOrders : Nat) (recvTsc : UInt64) {accepts : List BookEvent → Bool} {n : Nat} (full : n = 2 ^ 31) :
    (((create B expectedOrders recvTsc).run accepts (bidMessages 2 n ++ [(bidMessage n 1).encode])).handler.sink.bbo 0).top ≠
      (((create B expectedOrders recvTsc).run accepts (bidMessages 2 n ++ [(bidMessage n 1).encode])).handler.engine.books
        0).top := by
  have engine := @run_bids B accepts expectedOrders recvTsc 2 n
  have room := @room_bids B accepts expectedOrders recvTsc 2 n (by omega) (by omega)
  have current := run_current (create_current B expectedOrders recvTsc) room
  obtain ⟨-, size, absent⟩ := @BookEngine.ascendingBids_side 2 B expectedOrders n (by omega) (by omega)
  rw [← engine] at size absent
  have stale := @stale_bid B n accepts _ current (size.trans full)
    (absent 0 (by omega) (by omega)) (absent 1 (by omega) (by omega))
  rw [run, List.foldl_append]
  exact stale

/-- The feed of one bid at each of 2 ^ 31 prices and one below them. -/
theorem full_side_stale :
    (((create ⟨.avx2, 4⟩ 0 0).run (fun _ => true) (bidMessages 2 (2 ^ 31) ++ [(bidMessage (2 ^ 31) 1).encode])).handler.sink.bbo
      0).top ≠ (((create ⟨.avx2, 4⟩ 0 0).run (fun _ => true) (bidMessages 2 (2 ^ 31) ++
        [(bidMessage (2 ^ 31) 1).encode])).handler.engine.books 0).top := by
  have stale := @stale_run ⟨.avx2, 4⟩ 0 0 (fun _ => true) (2 ^ 31) (Eq.refl _)
  exact stale

end FeedParser

end Itch
