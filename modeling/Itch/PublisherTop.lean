import Itch.Lib.Runs
import Itch.Publisher
import Itch.TopOfBook

namespace Itch

def BboCache.top {ι : Type} (s : BboCache ι) : TopOfBook :=
  ⟨s.stored.bidPrice, s.stored.askPrice, s.stored.bidQty, s.stored.askQty⟩

def BookEvent.top (ev : BookEvent) : TopOfBook := ⟨ev.bidPrice, ev.askPrice, ev.bidQty, ev.askQty⟩

variable {B : Build}

namespace Publisher

variable (accepts : List BookEvent → Bool) (e : BookEngine B) (s : Publisher) (m : BookMessage) {u : BookUpdate}

theorem onBook_quiet (quiet : u.topChanged = false) :
    (s.onBook accepts e m u).bbo = s.bbo ∧ (s.onBook accepts e m u).offered = s.offered := by
  unfold onBook
  split
  · exact ⟨rfl, rfl⟩
  · cases m <;> simp [quiet]

/-- A change of the top is stored, and offered with the top of the book. -/
theorem onBook_changed (known : u.known = true) (changed : u.topChanged = true) :
    (∃ new, (s.onBook accepts e m u).bbo = Function.update s.bbo u.locate ((s.bbo u.locate).store new) ∧
      (⟨new.bidPrice, new.askPrice, new.bidQty, new.askQty⟩ : TopOfBook) = (e.books u.locate).top) ∧
    ∃ ev, (s.onBook accepts e m u).offered = s.offered ++ [ev] ∧ ev.locate = u.locate ∧
      ev.top = (e.books u.locate).top := by
  unfold onBook offer
  rw [if_neg (by simp [known])]
  cases m <;>
    · dsimp only
      rw [if_neg (by simp [changed])]
      split <;> exact ⟨⟨_, rfl, rfl⟩, _, rfl, rfl, rfl⟩

theorem on_quiet (m : Message) : (s.on m).bbo = s.bbo ∧ (s.on m).offered = s.offered := by
  cases m with
  | systemEvent m =>
    unfold on
    dsimp only
    split <;> split <;> exact ⟨rfl, rfl⟩
  | stockDirectory m => exact ⟨rfl, rfl⟩
  | book m => exact ⟨rfl, rfl⟩
  | other p => exact ⟨rfl, rfl⟩

end Publisher

namespace BookBuilder

/-- Every cache shows the top of its book, between two calls of `store`. -/
structure Current (b : BookBuilder B Publisher) : Prop where
  wf : b.engine.WF
  idle : ∀ locate, (b.sink.bbo locate).writer = .idle
  current : ∀ locate, (b.sink.bbo locate).top = (b.engine.books locate).top

/-- What a step to `b'` offers to the ring: events with the top of their books, and
one for each book whose top changed. -/
def Announces (b b' : BookBuilder B Publisher) : Prop :=
  ∃ new, b'.sink.offered = b.sink.offered ++ new ∧ (∀ ev ∈ new, ev.top = (b'.engine.books ev.locate).top) ∧
    ∀ locate, (b'.engine.books locate).top ≠ (b.engine.books locate).top → ∃ ev ∈ new, ev.locate = locate

variable {b b' : BookBuilder B Publisher} {accepts : List BookEvent → Bool}

/-- A step that leaves the tops of all books alone. -/
theorem Current.calm (current : b.Current) (reports : b.engine.Reports b'.engine {}) (bbo : b'.sink.bbo = b.sink.bbo)
    (offered : b'.sink.offered = b.sink.offered) : b'.Current ∧ b.Announces b' := by
  have same := fun locate => @BookEngine.Reports.top _ _ _ _ reports locate (by simp)
  refine ⟨⟨reports.wf, fun locate => by rw [bbo]; exact current.idle locate, fun locate => ?_⟩, [], ?_, nofun, ?_⟩
  · rw [bbo, same]
    exact current.current locate
  · rw [offered, List.append_nil]
  · exact fun locate changed => absurd (same locate) changed

/-- The step of `notify` from a change of the engine that was reported. -/
theorem Current.notify (current : b.Current) (m : BookMessage) {r : BookEngine B × BookUpdate}
    (reports : b.engine.Reports r.1 r.2) : (b.notify (Publisher.sink accepts) m r).Current ∧
      b.Announces (b.notify (Publisher.sink accepts) m r) := by
  by_cases changed : r.2.topChanged = true
  · obtain ⟨⟨new, bbo, stored⟩, ev, offered, here, top⟩ :=
      b.sink.onBook_changed accepts r.1 m (reports.known changed) changed
    refine ⟨⟨reports.wf, fun locate => ?_, fun locate => ?_⟩, [ev], offered, ?_, ?_⟩
    · change ((b.sink.onBook accepts r.1 m r.2).bbo locate).writer = .idle
      rw [bbo]
      by_cases same : locate = r.2.locate
      · rw [same, Function.update_self]
        exact (BboCache.store_stored (current.idle _) new).2
      · rw [Function.update_of_ne same]
        exact current.idle locate
    · change ((b.sink.onBook accepts r.1 m r.2).bbo locate).top = (r.1.books locate).top
      rw [bbo]
      by_cases same : locate = r.2.locate
      · rw [same, Function.update_self, BboCache.top, (BboCache.store_stored (current.idle _) new).1]
        exact stored
      · rw [Function.update_of_ne same, current.current locate]
        exact (reports.top fun top => same top.2.symm).symm
    · intro other member
      obtain rfl := List.mem_singleton.mp member
      rw [here]
      exact top
    · intro locate different
      refine ⟨ev, List.mem_singleton_self ev, ?_⟩
      by_contra other
      exact different (reports.top fun top => other (here.trans top.2))
  · have quiet := Bool.eq_false_iff.mpr changed
    obtain ⟨bbo, offered⟩ := @Publisher.onBook_quiet _ accepts r.1 b.sink m r.2 quiet
    refine current.calm ⟨reports.wf, nofun, fun locate bid _ => ?_⟩ bbo offered
    exact reports.quiet locate bid fun top => changed top.1

theorem Current.on (current : b.Current) {m : Message} (room : ∀ n, m = .book n → b.engine.Room n.call) :
    (b.on (Publisher.sink accepts) m).Current ∧ b.Announces (b.on (Publisher.sink accepts) m) := by
  cases m with
  | book m =>
    rw [BookBuilder.on, onBookMessage_eq]
    exact current.notify m (BookEngine.call_reports current.wf (room m rfl))
  | stockDirectory m => exact current.calm (BookEngine.prepare_reports current.wf m.locate) rfl rfl
  | systemEvent m =>
    obtain ⟨bbo, offered⟩ := b.sink.on_quiet (.systemEvent m)
    exact current.calm (.of_unchanged current.wf rfl rfl) bbo offered
  | other p => exact current.calm (.of_unchanged current.wf rfl rfl) rfl rfl

end BookBuilder

/-- The parser that the feed handler runs. -/
abbrev FeedParser (B : Build) := Parser (BookBuilder B Publisher)

namespace FeedParser

def create (B : Build) (expectedOrders : Nat) (recvTsc : UInt64) : FeedParser B where
  handler := { engine := .create B expectedOrders, sink := { recvTsc } }

variable (accepts : List BookEvent → Bool) (p : FeedParser B)

def parse (msg : List UInt8) : FeedParser B := Parser.parse (BookBuilder.handler (Publisher.sink accepts)) p msg

def run (msgs : List (List UInt8)) : FeedParser B := msgs.foldl (parse accepts) p

/-- Whether the message opens no level on a side that holds 2 ^ 31 levels. -/
def Room (msg : List UInt8) : Prop :=
  Parser.WellFormed msg → ∀ m, Message.decode msg = .book m → p.handler.engine.Room m.call

def RoomAll : FeedParser B → List (List UInt8) → Prop := Runs.Every (parse accepts) Room

variable {accepts p}

theorem parse_handler (msg : List UInt8) : (p.parse accepts msg).handler =
    if Parser.WellFormed msg then p.handler.on (Publisher.sink accepts) (.decode msg) else p.handler := by
  split <;> rename_i formed
  · rw [parse, Parser.parse_all formed rfl]
    rfl
  · rw [parse, Parser.parse_malformed formed]

theorem current_parse (current : p.handler.Current) {msg : List UInt8} (room : p.Room msg) :
    (p.parse accepts msg).handler.Current ∧ p.handler.Announces (p.parse accepts msg).handler := by
  rw [parse_handler]
  split <;> rename_i formed
  · exact current.on (room formed)
  · exact current.calm (.of_unchanged current.wf rfl rfl) rfl rfl

theorem create_current (B : Build) (expectedOrders : Nat) (recvTsc : UInt64) :
    (create B expectedOrders recvTsc).handler.Current where
  wf := BookEngine.create_wf B expectedOrders
  idle _ := rfl
  current _ := by
    change (BboCache.top {} : TopOfBook) = OrderBook.top {}
    decide

theorem run_current {msgs : List (List UInt8)} (current : p.handler.Current) (room : RoomAll accepts p msgs) :
    (p.run accepts msgs).handler.Current :=
  @Runs.Every.invariant _ _ _ _ (fun p : FeedParser B => p.handler.Current)
    (fun _ _ current room => (current_parse current room).1) _ _ current room

end FeedParser

end Itch
