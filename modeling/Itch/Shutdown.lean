import Itch.EngineEffects
import Itch.FeedHandlerInvariant

namespace Itch

namespace BookEngine

variable {B : Build}

theorem call_known (e : BookEngine B) (c : EngineCall) (changed : (e.call c).2.topChanged = true) :
    (e.call c).2.known = true := by
  cases c with
  | add locate ref side shares price => rfl
  | reduce ref shares =>
    rw [call] at changed ⊢
    cases found : e.orders.find ref with
    | none =>
      rw [reduce_unknown e found] at changed
      cases changed
    | some p =>
      by_cases none : p.order.taken shares = 0
      · rw [reduce_nothing e found none]
      · rw [(reduce_effect e found none rfl).2.2.2]
  | remove ref =>
    rw [call] at changed ⊢
    cases found : e.orders.find ref with
    | none =>
      rw [remove_unknown e found] at changed
      cases changed
    | some p => rw [(remove_effect e found).2.2.2]
  | replace oldRef newRef shares price =>
    rw [call] at changed ⊢
    cases found : e.orders.find oldRef with
    | none =>
      rw [replace_unknown e found] at changed
      cases changed
    | some p =>
      rw [replace_eq e found]
      rfl

/-- The call of `on_book` that a builder makes for a message. -/
def onBookCall (e : BookEngine B) (m : BookMessage) : OnBookCall B where
  engine := (e.call m.call).1
  message := m
  update := (e.call m.call).2
  known := e.call_known m.call

end BookEngine

namespace FeedHandler

variable {B : Build}

/-- Nothing is lost: the feed is done, what the ring took was popped, in its order and
once, and every change of a top is an event or counted as dropped. -/
structure Drained (s : FeedHandler) : Prop where
  finished : s.feedDone = true ∧ s.feed = .done
  popped : s.ring.consumed = s.ring.accepted
  order : s.ring.accepted.Sublist s.publisher.offered
  counted : s.events + s.publisher.dropped = s.topChanges

/-- In every interleaving the consumer leaves its loop with nothing lost. -/
theorem shutdown_lossless (slots : Nat → BookEvent) {turns : List (Turn B)}
    (exited : ((initial slots).run turns).loop = .exited) : ((initial slots).run turns).Drained := by
  have inv := run_inv slots turns
  generalize (initial slots).run turns = s at *
  obtain ⟨ch, ct, ring⟩ := inv.ring
  have loop := inv.loop
  have feed := inv.feed
  rw [exited] at loop
  obtain ⟨idle, done, drained, events⟩ := loop
  rw [done] at feed
  obtain ⟨flag, -, counted⟩ := feed
  have consumer := ring.consumer
  rw [idle] at consumer
  have whole : s.ring.consumed.length = s.ring.accepted.length := consumer.trans drained.symm
  refine ⟨⟨flag, done⟩, ring.fifo.eq_of_length whole, inv.order, ?_⟩
  rw [events, inv.popped, ← drained, counted]

/-- A change of a top, as the first bid of a book makes it. -/
def firstBid : OnBookCall ⟨.avx2, 4⟩ where
  engine := .create ⟨.avx2, 4⟩ 16
  message := .addOrder { locate := 1, ref := 1, side := ascii 'B', shares := 10, stock := [], price := 100 }
  update := { known := true, price := 100, locate := 1, side := ascii 'B', topChanged := true }
  known := fun _ => rfl

/-- What the slots hold before any push. -/
def oldEvent : BookEvent := Publisher.event {} firstBid.engine firstBid.message firstBid.update

/-- The feed thread pushes one event and is done while the consumer looks at an empty ring. -/
def oneEvent : List (Turn ⟨.avx2, 4⟩) :=
  [.feed (.onBook firstBid), .consumer, .consumer, .consumer] ++ List.replicate 4 (.feed .finish) ++
    List.replicate 9 .consumer

theorem shutdown_lossless_sample : ((initial fun _ => oldEvent).run oneEvent).Drained :=
  shutdown_lossless _ (by decide +kernel)

end FeedHandler

end Itch
