import Itch.FeedHandler
import Itch.Lib.Runs
import Itch.SpscRingInvariant

namespace Itch

namespace FeedHandler

variable {B : Build} {s : FeedHandler}

/-- The book updates so far whose top changed. -/
def topChanges (s : FeedHandler) : Nat := s.updates.countP fun u => u.topChanged

/-- What holds of the feed thread: every change of a top was offered, and is in the
ring or counted as dropped, but for the one it pushes. -/
def feeding (s : FeedHandler) : FeedPhase → Prop
  | .running => s.ring.producer = .idle ∧ s.ring.accepted.length + s.publisher.dropped = s.topChanges
  | .pushing ev => s.ring.producer.pending.getD ev = ev ∧
      s.ring.accepted.length + s.publisher.dropped + 1 = s.topChanges
  | .done => s.feedDone = true ∧ s.ring.producer = .idle ∧ s.ring.accepted.length + s.publisher.dropped = s.topChanges

/-- What holds of the consumer thread. Once it saw `feed_done` the ring gets no more. -/
def looping (s : FeedHandler) : LoopPhase → Prop
  | .popping => True
  | .loadDone => s.ring.consumer = .idle
  | .loadTail => s.ring.consumer = .idle ∧ s.feed = .done
  | .loadHead tail => s.ring.consumer = .idle ∧ s.feed = .done ∧ tail = s.ring.tail
  | .exited => s.ring.consumer = .idle ∧ s.feed = .done ∧ s.ring.accepted.length = s.ring.released ∧ s.events = s.n

structure Inv (s : FeedHandler) : Prop where
  ring : ∃ ch ct, s.ring.Inv EventRing.capacity 0 ch ct
  order : s.ring.accepted.Sublist s.publisher.offered
  finished : s.feedDone = true → s.feed = .done
  feed : s.feeding s.feed
  popped : s.n = s.ring.released
  loop : s.looping s.loop

theorem initial_inv (slots : Nat → BookEvent) : (initial slots).Inv where
  ring := ⟨0, 0, SpscRing.initial_inv (by decide) slots⟩
  order := List.Sublist.refl _
  finished done := by cases done
  feed := ⟨rfl, rfl⟩
  popped := rfl
  loop := trivial

/-- While the feed thread is not done, the consumer has seen nothing final. -/
theorem looping_feed {t : FeedHandler} (busy : s.feed ≠ .done) (consumer : t.ring.consumer = s.ring.consumer) {phase : LoopPhase}
    (loop : s.looping phase) : t.looping phase := by
  cases phase with
  | popping => trivial
  | loadDone => exact consumer.trans loop
  | loadTail => exact absurd loop.2 busy
  | loadHead tail => exact absurd loop.2.1 busy
  | exited => exact absurd loop.2.1 busy

theorem record_counts (p : Publisher) (e : BookEngine B) (m : BookMessage) (u : BookUpdate) :
    (p.record e m u).offered = p.offered ∧ (p.record e m u).dropped = p.dropped := by
  unfold Publisher.record
  split
  · exact ⟨rfl, rfl⟩
  · cases m <;> dsimp only <;> split <;> (try split) <;> exact ⟨rfl, rfl⟩

theorem on_counts (p : Publisher) (m : Message) : (p.on m).offered = p.offered ∧ (p.on m).dropped = p.dropped := by
  cases m with
  | systemEvent m =>
    unfold Publisher.on
    dsimp only
    split <;> split <;> exact ⟨rfl, rfl⟩
  | stockDirectory m => exact ⟨rfl, rfl⟩
  | book m => exact ⟨rfl, rfl⟩
  | other type => exact ⟨rfl, rfl⟩

theorem Inv.not_done (inv : s.Inv) (busy : s.feed ≠ .done) : s.feedDone ≠ true := fun done => busy (inv.finished done)

/-- A step of the feed thread that does not touch the ring. -/
theorem Inv.outside (inv : s.Inv) (busy : s.feed ≠ .done) {t : FeedHandler} (ring : t.ring = s.ring)
    (offered : t.publisher.offered = s.publisher.offered) (popped : t.n = s.n) (phase : t.loop = s.loop)
    (finished : t.feedDone = true → t.feed = .done) (feed : t.feeding t.feed) : t.Inv := by
  refine ⟨ring ▸ inv.ring, ?_, finished, feed, ?_, ?_⟩
  · rw [ring, offered]
    exact inv.order
  · rw [popped, ring]
    exact inv.popped
  · rw [phase]
    exact looping_feed busy (congrArg SpscRing.consumer ring) inv.loop

/-- One more update, of a book whose top changed or not. -/
theorem topChanges_next (u : BookUpdate) (updates : List BookUpdate) :
    (updates ++ [u]).countP (fun u => u.topChanged) =
      (updates.countP fun u => u.topChanged) + if u.topChanged then 1 else 0 := by
  rw [List.countP_append, List.countP_singleton]

theorem onBook_inv (inv : s.Inv) (running : s.feed = .running) (c : OnBookCall B) : (s.feedStep (.onBook c)).Inv := by
  have feed := inv.feed
  have busy : s.feed ≠ .done := running ▸ FeedPhase.noConfusion
  obtain ⟨offered, dropped⟩ := record_counts s.publisher c.engine c.message c.update
  have next := topChanges_next c.update s.updates
  rw [running] at feed
  obtain ⟨idle, counted⟩ := feed
  rw [topChanges, ← dropped] at counted
  unfold feedStep
  rw [running]
  dsimp only
  split <;> rename_i changed
  · obtain ⟨-, top⟩ := Bool.and_eq_true_iff.mp changed
    rw [if_pos top, ← counted] at next
    refine inv.outside busy rfl offered rfl rfl (fun done => absurd done (inv.not_done busy)) ⟨?_, next.symm⟩
    rw [idle]
    rfl
  · have quiet : ¬ c.update.topChanged = true := fun top => changed (Bool.and_eq_true_iff.mpr ⟨c.known top, top⟩)
    rw [if_neg quiet, ← counted] at next
    refine inv.outside busy rfl offered rfl rfl (fun done => absurd done (inv.not_done busy)) ?_
    exact ⟨idle, next.symm⟩

theorem push_inv (inv : s.Inv) {ev : BookEvent} (pushing : s.feed = .pushing ev) (action : FeedAction B) :
    (s.feedStep action).Inv := by
  have feed := inv.feed
  have busy : s.feed ≠ .done := pushing ▸ FeedPhase.noConfusion
  obtain ⟨ch, ct, ring⟩ := inv.ring
  rw [pushing] at feed
  obtain ⟨same, counted⟩ := feed
  obtain ⟨e, r, taken⟩ : ∃ e r, s.ring.producerStep (2 ^ 16) ev = (e, r) := ⟨_, _, rfl⟩
  obtain ⟨⟨ch', kept⟩, -, -⟩ := SpscRing.producerStep_inv (by decide) ring taken
  obtain ⟨consumer, -, -, released⟩ := s.ring.producerStep_frame (N := 2 ^ 16) ev
  have push := @SpscRing.producerStep_push _ (2 ^ 16) _ _ same
  rw [taken] at consumer released push
  unfold feedStep
  simp only [pushing, EventRing.capacity, taken] at consumer released push ⊢
  have popped : s.n = r.released := inv.popped.trans released.symm
  rcases push with ⟨idle, accepted⟩ | ⟨pending, accepted⟩
  · simp only [idle]
    by_cases refused : e = .refused
    · rw [if_pos refused] at accepted
      refine ⟨⟨ch', ct, kept⟩, ?_, fun done => absurd done (inv.not_done busy), ⟨idle, ?_⟩, popped,
        looping_feed busy consumer inv.loop⟩
      · rw [accepted]
        exact inv.order.trans (List.sublist_append_left ..)
      · rw [accepted]
        simp only [Publisher.offer, refused, ne_eq, not_true, decide_false, Bool.false_eq_true, if_false]
        exact counted
    · rw [if_neg refused] at accepted
      refine ⟨⟨ch', ct, kept⟩, ?_, fun done => absurd done (inv.not_done busy), ⟨idle, ?_⟩, popped,
        looping_feed busy consumer inv.loop⟩
      · rw [accepted]
        exact inv.order.append (List.Sublist.refl [ev])
      · rw [accepted, List.length_append, List.length_singleton, Nat.add_right_comm]
        simp only [Publisher.offer, refused, ne_eq, not_false_eq_true, decide_true, if_true]
        exact counted
  · split
    · rename_i idle
      rw [idle] at pending
      cases pending
    · refine ⟨⟨ch', ct, kept⟩, accepted ▸ inv.order, fun done => absurd done (inv.not_done busy), ?_, popped,
        looping_feed busy consumer inv.loop⟩
      refine ⟨?_, ?_⟩
      · rw [pending]
        rfl
      · rw [accepted]
        exact counted

theorem feedStep_inv (inv : s.Inv) (action : FeedAction B) : (s.feedStep action).Inv := by
  have feed := inv.feed
  cases phase : s.feed with
  | done =>
    unfold feedStep
    rw [phase]
    exact inv
  | pushing ev => exact push_inv inv phase action
  | running =>
    have busy : s.feed ≠ .done := phase ▸ FeedPhase.noConfusion
    have finished : s.feedDone = true → FeedPhase.running = .done := fun done => absurd done (inv.not_done busy)
    cases action with
    | onBook c => exact onBook_inv inv phase c
    | on m =>
      obtain ⟨offered, dropped⟩ := on_counts s.publisher m
      unfold feedStep
      rw [phase] at feed ⊢
      refine inv.outside busy rfl offered rfl rfl finished ⟨feed.1, ?_⟩
      exact dropped.symm ▸ feed.2
    | setRecvTsc t =>
      unfold feedStep
      rw [phase] at feed ⊢
      exact inv.outside busy rfl rfl rfl rfl finished feed
    | finish =>
      unfold feedStep
      rw [phase] at feed ⊢
      exact inv.outside busy rfl rfl rfl rfl (fun _ => rfl) ⟨rfl, feed⟩

/-- A step of the consumer thread that leaves the ring alone. -/
theorem Inv.inside (inv : s.Inv) {phase : LoopPhase} {events : Nat}
    (loop : FeedHandler.looping { s with loop := phase, events } phase) :
    FeedHandler.Inv { s with loop := phase, events } where
  ring := inv.ring
  order := inv.order
  finished := inv.finished
  feed := by
    have feed := inv.feed
    dsimp only
    cases phase : s.feed with
    | running => exact phase ▸ feed
    | pushing ev => exact phase ▸ feed
    | done => exact phase ▸ feed
  popped := inv.popped
  loop

/-- A step of `pop_batch`. -/
theorem pop_inv (inv : s.Inv) (popping : s.loop = .popping) : s.consumerStep.Inv := by
  obtain ⟨ch, ct, ring⟩ := inv.ring
  obtain ⟨e, r, taken⟩ : ∃ e r, s.ring.consumerStep (2 ^ 16) 256 = (e, r) := ⟨_, _, rfl⟩
  obtain ⟨⟨ct', kept⟩, -, -⟩ := SpscRing.consumerStep_inv (by decide) ring taken
  obtain ⟨producer, tail, accepted, released⟩ := s.ring.consumerStep_frame (N := 2 ^ 16) 256
  unfold consumerStep
  simp only [popping, EventRing.capacity, taken] at producer tail accepted released ⊢
  have feed : ∀ t : FeedHandler, t.ring = r → t.publisher = s.publisher → t.feedDone = s.feedDone → t.updates = s.updates →
      t.feeding s.feed := by
    intro t ring publisher done updates
    have feed := inv.feed
    cases phase : s.feed <;> rw [phase] at feed <;>
      simpa only [feeding, topChanges, ring, publisher, done, updates, producer, accepted] using feed
  split <;> rename_i idle
  · refine ⟨⟨ch, ct', kept⟩, accepted ▸ inv.order, inv.finished, feed _ rfl rfl rfl rfl, ?_, ?_⟩
    · rw [inv.popped, released]
    · by_cases none : s.ring.consumer.got = 0
      · simp only [none, if_true]
        exact idle
      · simp only [none, if_false]
        trivial
  · have nothing : s.ring.consumer.got = 0 := @SpscRing.consumerStep_busy _ (2 ^ 16) _ 256 (taken ▸ idle)
    refine ⟨⟨ch, ct', kept⟩, accepted ▸ inv.order, inv.finished, feed _ rfl rfl rfl rfl, ?_, ?_⟩
    · rw [inv.popped, released, nothing, Nat.add_zero]
    · trivial

theorem consumerStep_inv (inv : s.Inv) : s.consumerStep.Inv := by
  have loop := inv.loop
  cases phase : s.loop with
  | popping => exact pop_inv inv phase
  | exited =>
    unfold consumerStep
    rw [phase]
    exact inv
  | loadDone =>
    rw [phase] at loop
    unfold consumerStep
    simp only [phase]
    refine inv.inside ?_
    cases done : s.feedDone with
    | true => exact ⟨loop, inv.finished done⟩
    | false => trivial
  | loadTail =>
    rw [phase] at loop
    unfold consumerStep
    simp only [phase]
    exact inv.inside ⟨loop.1, loop.2, rfl⟩
  | loadHead tail =>
    rw [phase] at loop
    obtain ⟨idle, done, rfl⟩ := loop
    obtain ⟨ch, ct, ring⟩ := inv.ring
    have room := ring.room
    have behind := ring.headBehind
    have released := ring.released_le
    have consumed := ring.consumedBehind
    have published := ring.tailBehind
    have size : Wrap.distance (2 ^ 64) s.ring.tail s.ring.head = s.ring.accepted.length - s.ring.released := by
      rw [ring.tail, ring.head, Wrap.distance_of_le (by omega) (by rw [EventRing.capacity] at room; omega)]
    unfold consumerStep
    simp only [phase]
    split <;> rename_i drained
    · rw [size] at drained
      exact inv.inside ⟨idle, done, by dsimp only; omega, rfl⟩
    · exact inv.inside trivial

/-- What holds of the two threads in every interleaving. -/
theorem run_inv (slots : Nat → BookEvent) (turns : List (Turn B)) : ((initial slots).run turns).Inv := by
  refine Runs.invariant Inv (fun s turn inv => ?_) turns (initial_inv slots)
  cases turn with
  | feed action => exact feedStep_inv inv action
  | consumer => exact consumerStep_inv inv

end FeedHandler

end Itch
