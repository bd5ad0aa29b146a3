import Itch.PublisherFullSide
import Itch.Shutdown

namespace Itch

variable {B : Build}

/-- What a message makes of the engine, and what the feed thread does about it. -/
def BookEngine.feedAction (e : BookEngine B) : Message → BookEngine B × FeedAction B
  | .book m => ((e.call m.call).1, .onBook (e.onBookCall m))
  | .stockDirectory m => (e.prepare m.locate, .on (.stockDirectory m))
  | .systemEvent m => (e, .on (.systemEvent m))
  | .other p => (e, .on (.other p))

/-- Both threads of a replay, with the engine of the feed thread and the messages that it has
still to parse. -/
structure FeedThreads (B : Build) where
  handler : FeedHandler
  engine : BookEngine B
  todo : List (List UInt8)

namespace FeedThreads

def initial (B : Build) (expectedOrders : Nat) (slots : Nat → BookEvent) (msgs : List (List UInt8)) : FeedThreads B where
  handler := .initial slots
  engine := .create B expectedOrders
  todo := msgs

/-- The feed thread parses the next message, or goes on with its push. It is done when all are parsed. -/
def feedTurn (s : FeedThreads B) : FeedThreads B :=
  match s.handler.feed, s.todo with
  | .running, msg :: todo =>
    if Parser.WellFormed msg then
      let (engine, action) := s.engine.feedAction (.decode msg)
      { handler := s.handler.feedStep action, engine, todo }
    else { s with todo }
  | _, _ => { s with handler := s.handler.feedStep (B := B) .finish }

def turn (s : FeedThreads B) (feed : Bool) : FeedThreads B :=
  if feed then s.feedTurn else { s with handler := s.handler.consumerStep }

/-- An interleaving of the two threads; `true` is a turn of the feed thread. -/
def run (s : FeedThreads B) (turns : List Bool) : FeedThreads B := turns.foldl turn s

theorem turn_inv {s : FeedThreads B} (inv : s.handler.Inv) (feed : Bool) : (s.turn feed).handler.Inv := by
  cases feed with
  | false => exact FeedHandler.consumerStep_inv inv
  | true =>
    show s.feedTurn.handler.Inv
    unfold feedTurn
    split
    · split
      · exact FeedHandler.feedStep_inv inv _
      · exact inv
    · exact FeedHandler.feedStep_inv inv (.finish : FeedAction B)

end FeedThreads

/-- A push under way ends, with its event accepted or counted as dropped, or goes on. -/
theorem FeedHandler.feedStep_pushing {s : FeedHandler} (inv : s.Inv) {ev : BookEvent} (pushing : s.feed = .pushing ev)
    (action : FeedAction B) :
    ((s.feedStep action).feed = .running ∧ (s.feedStep action).ring.accepted = s.ring.accepted ++ [ev] ∧
        (s.feedStep action).publisher = { s.publisher with offered := s.publisher.offered ++ [ev] }) ∨
      ((s.feedStep action).feed = .running ∧ (s.feedStep action).ring.accepted = s.ring.accepted ∧
        (s.feedStep action).publisher =
          { s.publisher with offered := s.publisher.offered ++ [ev], dropped := s.publisher.dropped + 1 }) ∨
      ((s.feedStep action).feed = .pushing ev ∧ (s.feedStep action).ring.accepted = s.ring.accepted ∧
        (s.feedStep action).publisher = s.publisher) := by
  have feed := inv.feed
  rw [pushing] at feed
  have push := @SpscRing.producerStep_push _ (2 ^ 16) _ _ feed.1
  obtain ⟨e, r, taken⟩ : ∃ e r, s.ring.producerStep (2 ^ 16) ev = (e, r) := ⟨_, _, rfl⟩
  unfold feedStep
  simp only [pushing, EventRing.capacity, taken] at push ⊢
  rcases push with ⟨idle, accepted⟩ | ⟨pending, accepted⟩
  · simp only [idle]
    by_cases refused : e = .refused
    · rw [if_pos refused] at accepted
      exact .inr (.inl ⟨trivial, accepted, by simp [Publisher.offer, refused]⟩)
    · rw [if_neg refused] at accepted
      exact .inl ⟨trivial, accepted, by simp [Publisher.offer, refused]⟩
  · split
    · rename_i idle
      rw [idle] at pending
      cases pending
    · exact .inr (.inr ⟨rfl, accepted, rfl⟩)

namespace Publisher

/-- What `on_book` records does not depend on how many events were dropped. -/
theorem record_dropped (s : Publisher) (d : Nat) (e : BookEngine B) (m : BookMessage) (u : BookUpdate) :
    ({ s with dropped := d }).record e m u = { s.record e m u with dropped := d } := by
  unfold record
  split
  · rfl
  · cases m <;> dsimp only <;> split <;> (try split) <;> rfl

theorem on_dropped (s : Publisher) (d : Nat) (m : Message) : ({ s with dropped := d }).on m = { s.on m with dropped := d } := by
  cases m with
  | systemEvent m =>
    unfold on
    dsimp only
    split <;> split <;> rfl
  | stockDirectory m => rfl
  | book m => rfl
  | other p => rfl

end Publisher

namespace FeedParser

/-- A ring that is never full. -/
def roomy : List BookEvent → Bool := fun _ => true

/-- A message offers at most one event. -/
theorem parse_offered (p : FeedParser B) (accepts : List BookEvent → Bool) (msg : List UInt8) :
    (p.parse accepts msg).handler.sink.offered = p.handler.sink.offered ∨
      ∃ ev, (p.parse accepts msg).handler.sink.offered = p.handler.sink.offered ++ [ev] := by
  rw [parse_handler]
  split
  · cases Message.decode msg with
    | book m =>
      rw [BookBuilder.on, BookBuilder.onBookMessage_eq]
      by_cases changed : (p.handler.engine.call m.call).2.known && (p.handler.engine.call m.call).2.topChanged
      · refine .inr ⟨Publisher.event p.handler.sink (p.handler.engine.call m.call).1 m (p.handler.engine.call m.call).2, ?_⟩
        show (Publisher.onBook accepts _ p.handler.sink m _).offered = _
        rw [Publisher.onBook_eq, if_pos changed, Publisher.offer]
        exact congrArg (· ++ _) (FeedHandler.record_counts ..).1
      · refine .inl ?_
        show (Publisher.onBook accepts _ p.handler.sink m _).offered = _
        rw [Publisher.onBook_eq, if_neg changed]
        exact (FeedHandler.record_counts ..).1
    | stockDirectory m => exact .inl rfl
    | systemEvent m => exact .inl (FeedHandler.on_counts ..).1
    | other p => exact .inl rfl
  · exact .inl rfl

end FeedParser

namespace FeedThreads

/-- The publisher as it will be once the push under way is over. -/
def settled (s : FeedHandler) : Publisher :=
  match s.feed with
  | .pushing ev => { s.publisher with offered := s.publisher.offered ++ [ev] }
  | _ => s.publisher

theorem settled_pushing {s : FeedHandler} {ev : BookEvent} (pushing : s.feed = .pushing ev) :
    settled s = { s.publisher with offered := s.publisher.offered ++ [ev] } := by
  rw [settled, pushing]

theorem settled_running {s : FeedHandler} (running : s.feed = .running) : settled s = s.publisher := by
  rw [settled, running]

/-- The feed thread after the first `k` messages, as a parser that takes them in one go. -/
structure Follows (start : FeedParser B) (msgs : List (List UInt8)) (s : FeedThreads B) (k : Nat) : Prop where
  todo : s.todo = msgs.drop k
  engine : s.engine = (start.run FeedParser.roomy (msgs.take k)).handler.engine
  publisher : settled s.handler =
    { (start.run FeedParser.roomy (msgs.take k)).handler.sink with dropped := s.handler.publisher.dropped }
  counted : s.handler.ring.accepted.length + s.handler.publisher.dropped = s.handler.publisher.offered.length
  done : s.handler.feed = .done → s.todo = []

theorem initial_follows (B : Build) (expectedOrders : Nat) (slots : Nat → BookEvent) (msgs : List (List UInt8)) :
    (initial B expectedOrders slots msgs).Follows (.create B expectedOrders 0) msgs 0 where
  todo := rfl
  engine := rfl
  publisher := rfl
  counted := rfl
  done done := by cases done

variable {start : FeedParser B} {msgs : List (List UInt8)} {s : FeedThreads B} {k : Nat}

theorem Follows.consumer (follows : s.Follows start msgs k) : (s.turn false).Follows start msgs k := by
  obtain ⟨todo, engine, publisher, counted, done⟩ := follows
  have accepted := (s.handler.ring.consumerStep_frame (N := EventRing.capacity) 256).2.2.1
  show Follows start msgs { s with handler := s.handler.consumerStep } k
  unfold FeedHandler.consumerStep
  cases s.handler.loop with
  | popping =>
    dsimp only
    split <;> exact ⟨todo, engine, publisher, by rw [accepted]; exact counted, done⟩
  | loadDone => exact ⟨todo, engine, publisher, counted, done⟩
  | loadTail => exact ⟨todo, engine, publisher, counted, done⟩
  | loadHead tail =>
    dsimp only
    split <;> exact ⟨todo, engine, publisher, counted, done⟩
  | exited => exact ⟨todo, engine, publisher, counted, done⟩

theorem Follows.pushing (follows : s.Follows start msgs k) (inv : s.handler.Inv) {ev : BookEvent}
    (pushing : s.handler.feed = .pushing ev) : (s.turn true).Follows start msgs k := by
  obtain ⟨todo, engine, publisher, counted, done⟩ := follows
  have step : s.turn true = { s with handler := s.handler.feedStep (.finish : FeedAction B) } := by
    show s.feedTurn = _
    unfold feedTurn
    rw [pushing]
  have push := FeedHandler.feedStep_pushing inv pushing (.finish : FeedAction B)
  rw [settled_pushing pushing] at publisher
  rw [step]
  rcases push with ⟨running, accepted, taken⟩ | ⟨running, accepted, refused⟩ | ⟨goes, accepted, same⟩
  · refine ⟨todo, engine, ?_, ?_, fun done => ?_⟩
    · rw [settled_running running, taken]
      exact publisher
    · rw [accepted, taken, List.length_append, List.length_append]
      dsimp only
      omega
    · rw [running] at done
      cases done
  · refine ⟨todo, engine, ?_, ?_, fun done => ?_⟩
    · rw [settled_running running, refused]
      exact congrArg (fun p : Publisher => { p with dropped := s.handler.publisher.dropped + 1 }) publisher
    · rw [accepted, refused, List.length_append, List.length_singleton]
      dsimp only
      omega
    · rw [running] at done
      cases done
  · refine ⟨todo, engine, ?_, ?_, fun done => ?_⟩
    · rw [settled_pushing goes, same]
      exact publisher
    · rw [accepted, same]
      exact counted
    · rw [goes] at done
      cases done

/-- A step of the feed thread for a message, in the terms of a parser that takes it in one go. -/
theorem feedStep_message {e : BookEngine B} {b : BookBuilder B Publisher} {s : FeedHandler} (running : s.feed = .running)
    (engine : e = b.engine) (publisher : s.publisher = { b.sink with dropped := s.publisher.dropped }) (m : Message) :
    (e.feedAction m).1 = (b.on (Publisher.sink FeedParser.roomy) m).engine ∧
      (s.feedStep (e.feedAction m).2).ring = s.ring ∧ (s.feedStep (e.feedAction m).2).feed ≠ .done ∧
      (s.feedStep (e.feedAction m).2).publisher.dropped = s.publisher.dropped ∧
      (s.feedStep (e.feedAction m).2).publisher.offered = s.publisher.offered ∧
      settled (s.feedStep (e.feedAction m).2) =
        { (b.on (Publisher.sink FeedParser.roomy) m).sink with dropped := s.publisher.dropped } := by
  subst engine
  have on : ∀ m : Message, ∀ t : FeedHandler, t = { s with publisher := s.publisher.on m } →
      t.ring = s.ring ∧ t.feed ≠ .done ∧ t.publisher.dropped = s.publisher.dropped ∧
        t.publisher.offered = s.publisher.offered ∧ settled t = { b.sink.on m with dropped := s.publisher.dropped } := by
    intro m t step
    obtain ⟨offered, dropped⟩ := FeedHandler.on_counts s.publisher m
    have runs : t.feed = .running := by rw [step]; exact running
    refine ⟨by rw [step], by rw [runs]; exact FeedPhase.noConfusion, by rw [step]; exact dropped, by rw [step]; exact offered, ?_⟩
    rw [settled_running runs, step, ← Publisher.on_dropped, ← publisher]
  cases m with
  | stockDirectory m =>
    refine ⟨rfl, on (.stockDirectory m) _ ?_⟩
    show s.feedStep (.on (.stockDirectory m) : FeedAction B) = _
    rw [FeedHandler.feedStep, running]
  | systemEvent m =>
    refine ⟨rfl, on (.systemEvent m) _ ?_⟩
    show s.feedStep (.on (.systemEvent m) : FeedAction B) = _
    rw [FeedHandler.feedStep, running]
  | other p =>
    refine ⟨rfl, on (.other p) _ ?_⟩
    show s.feedStep (.on (.other p) : FeedAction B) = _
    rw [FeedHandler.feedStep, running]
  | book m =>
    obtain ⟨offered, dropped⟩ := FeedHandler.record_counts s.publisher (b.engine.call m.call).1 m (b.engine.call m.call).2
    have records : s.publisher.record (b.engine.call m.call).1 m (b.engine.call m.call).2 =
        { b.sink.record (b.engine.call m.call).1 m (b.engine.call m.call).2 with dropped := s.publisher.dropped } := by
      rw [← Publisher.record_dropped, ← publisher]
    have event : s.publisher.event (b.engine.call m.call).1 m (b.engine.call m.call).2 =
        b.sink.event (b.engine.call m.call).1 m (b.engine.call m.call).2 := by
      rw [publisher]
      rfl
    have sink : (b.on (Publisher.sink FeedParser.roomy) (.book m)).sink =
        b.sink.onBook FeedParser.roomy (b.engine.call m.call).1 m (b.engine.call m.call).2 := by
      rw [BookBuilder.on, BookBuilder.onBookMessage_eq]
      rfl
    refine ⟨by rw [BookBuilder.on, BookBuilder.onBookMessage_eq]; rfl, ?_⟩
    have step : s.feedStep (b.engine.feedAction (.book m)).2 =
        let t := { s with
          publisher := s.publisher.record (b.engine.call m.call).1 m (b.engine.call m.call).2
          updates := s.updates ++ [(b.engine.call m.call).2] }
        if (b.engine.call m.call).2.known && (b.engine.call m.call).2.topChanged then
          { t with feed := .pushing (s.publisher.event (b.engine.call m.call).1 m (b.engine.call m.call).2) }
        else t := by
      show s.feedStep (.onBook (b.engine.onBookCall m)) = _
      rw [FeedHandler.feedStep, running]
      rfl
    rw [step, sink, Publisher.onBook_eq]
    dsimp only
    by_cases changed : ((b.engine.call m.call).2.known && (b.engine.call m.call).2.topChanged) = true
    · simp only [if_pos changed]
      refine ⟨trivial, FeedPhase.noConfusion, dropped, offered, ?_⟩
      rw [settled_pushing rfl]
      dsimp only
      rw [records, event]
      rfl
    · simp only [if_neg changed]
      refine ⟨trivial, by rw [running]; exact FeedPhase.noConfusion, dropped, offered, ?_⟩
      simp only [settled, running]
      exact records

theorem Follows.running (follows : s.Follows start msgs k) (running : s.handler.feed = .running) :
    ∃ k, (s.turn true).Follows start msgs k := by
  obtain ⟨todo, engine, publisher, counted, done⟩ := follows
  rw [settled_running running] at publisher
  show ∃ k, s.feedTurn.Follows start msgs k
  cases rest : s.todo with
  | nil =>
    have step : s.feedTurn = { s with handler := { s.handler with feedDone := true, feed := .done } } := by
      unfold feedTurn
      rw [running, rest, FeedHandler.feedStep, running]
    rw [step]
    exact ⟨k, todo, engine, publisher, counted, fun _ => rest⟩
  | cons msg more =>
    -- The next message of the run is number `k`.
    rw [rest] at todo
    have within : k < msgs.length := by
      by_contra past
      rw [List.drop_eq_nil_of_le (Nat.le_of_not_lt past)] at todo
      cases todo
    rw [List.drop_eq_getElem_cons within] at todo
    obtain ⟨rfl, rfl⟩ := List.cons_eq_cons.mp todo
    have after : (start.run FeedParser.roomy (msgs.take (k + 1))).handler =
        if Parser.WellFormed msgs[k] then
          (start.run FeedParser.roomy (msgs.take k)).handler.on (Publisher.sink FeedParser.roomy) (.decode msgs[k])
        else (start.run FeedParser.roomy (msgs.take k)).handler := by
      rw [List.take_succ_eq_append_getElem within, FeedParser.run, List.foldl_append]
      exact FeedParser.parse_handler _
    refine ⟨k + 1, ?_⟩
    unfold feedTurn
    rw [running, rest]
    dsimp only
    split <;> rename_i formed
    · rw [if_pos formed] at after
      obtain ⟨next, ring, goes, dropped, offered, settles⟩ := feedStep_message running engine publisher (.decode msgs[k])
      refine ⟨rfl, ?_, ?_, ?_, fun done => absurd done goes⟩
      · rw [after]
        exact next
      · rw [after, dropped]
        exact settles
      · rw [ring, dropped, offered]
        exact counted
    · rw [if_neg formed] at after
      refine ⟨rfl, ?_, ?_, counted, fun done => ?_⟩
      · rw [after]
        exact engine
      · rw [after]
        exact (settled_running running).trans publisher
      · rw [running] at done
        cases done

/-- A turn of either thread. -/
theorem Follows.turn (follows : s.Follows start msgs k) (inv : s.handler.Inv) (feed : Bool) :
    ∃ k, (s.turn feed).Follows start msgs k := by
  cases feed with
  | false => exact ⟨k, follows.consumer⟩
  | true =>
    cases phase : s.handler.feed with
    | running => exact follows.running phase
    | pushing ev => exact ⟨k, follows.pushing inv phase⟩
    | done =>
      have same : s.turn true = s := by
        show s.feedTurn = s
        unfold feedTurn
        rw [phase, FeedHandler.feedStep, phase]
      exact ⟨k, same.symm ▸ follows⟩

theorem run_follows (B : Build) (expectedOrders : Nat) (slots : Nat → BookEvent) (msgs : List (List UInt8)) (turns : List Bool) :
    ∃ k, ((initial B expectedOrders slots msgs).run turns).handler.Inv ∧
      ((initial B expectedOrders slots msgs).run turns).Follows (.create B expectedOrders 0) msgs k := by
  have kept := Runs.invariant (fun s : FeedThreads B => s.handler.Inv ∧ ∃ k, s.Follows (.create B expectedOrders 0) msgs k)
    (fun s feed holds => ⟨turn_inv holds.1 feed, holds.2.elim fun _ follows => follows.turn holds.1 feed⟩) turns
    ⟨FeedHandler.initial_inv slots, 0, initial_follows B expectedOrders slots msgs⟩
  obtain ⟨inv, k, follows⟩ := kept
  exact ⟨k, inv, follows⟩

end FeedThreads

/-- The tops that a reader of these events knows, the last one of each book. -/
def viewOf (events : List BookEvent) : UInt16 → TopOfBook :=
  events.foldl (fun view ev => Function.update view ev.locate ev.top) fun _ => {}

/-- Events that carry the tops of their books bring the view up to date where there is one. -/
theorem viewOf_append {tops : UInt16 → TopOfBook} (front : List BookEvent) {new : List BookEvent}
    (told : ∀ ev ∈ new, ev.top = tops ev.locate) (locate : UInt16) :
    viewOf (front ++ new) locate = if ∃ ev ∈ new, ev.locate = locate then tops locate else viewOf front locate := by
  induction new using List.reverseRecOn with
  | nil => simp
  | append_singleton new ev ih =>
    have earlier := ih fun ev member => told ev (List.mem_append_left _ member)
    rw [← List.append_assoc, viewOf, List.foldl_append, List.foldl_cons, List.foldl_nil, Function.update_apply]
    by_cases here : locate = ev.locate
    · subst here
      rw [if_pos rfl, told ev (List.mem_append_right _ List.mem_cons_self), if_pos ⟨ev, by simp, rfl⟩]
    · have same : (∃ e ∈ new ++ [ev], e.locate = locate) ↔ ∃ e ∈ new, e.locate = locate := by
        simp [Ne.symm here]
      rw [if_neg here]
      simp only [same]
      exact earlier

namespace FeedParser

/-- After every run the view of its events is that of the books. -/
theorem viewOf_run (B : Build) (expectedOrders : Nat) {accepts : List BookEvent → Bool} {msgs : List (List UInt8)}
    (room : RoomAll accepts (create B expectedOrders 0) msgs) (locate : UInt16) :
    viewOf ((create B expectedOrders 0).run accepts msgs).handler.sink.offered locate =
      (((create B expectedOrders 0).run accepts msgs).handler.engine.books locate).top := by
  have kept := @Runs.Every.invariant _ _ (parse accepts) Room
    (fun p : FeedParser B => p.handler.Current ∧ ∀ locate, viewOf p.handler.sink.offered locate = (p.handler.engine.books locate).top)
    (fun p msg holds room => ?_) _ msgs ⟨create_current B expectedOrders 0, fun _ => rfl⟩ room
  · exact kept.2 locate
  · obtain ⟨current, view⟩ := holds
    obtain ⟨after, new, offered, told, changed⟩ := @current_parse _ accepts _ current _ room
    refine ⟨after, fun locate => ?_⟩
    rw [offered, @viewOf_append (fun locate => ((p.parse accepts msg).handler.engine.books locate).top) _ _ told, view]
    split
    · rfl
    · rename_i none
      by_contra other
      exact none (changed locate (Ne.symm other))

end FeedParser

namespace FeedThreads

/-- As long as no event was dropped, in every interleaving, the tops that the consumer knows
are those that all books had at one time, after some of the messages parsed so far; once it
leaves its loop they are those that the books have at the end. -/
theorem consumer_view (B : Build) (expectedOrders : TableSize B.group) (slots : Nat → BookEvent) {msgs : List (List UInt8)}
    (room : FeedParser.RoomAll FeedParser.roomy (.create B expectedOrders 0) msgs) (turns : List Bool) :
    let s := (initial B expectedOrders slots msgs).run turns
    s.handler.publisher.dropped = 0 → ∃ k, k + s.todo.length ≤ msgs.length ∧
      (∀ locate, viewOf s.handler.ring.consumed locate =
        (((FeedParser.create B expectedOrders 0).run FeedParser.roomy (msgs.take k)).handler.engine.books locate).top) ∧
      (s.handler.loop = .exited → ∀ locate, viewOf s.handler.ring.consumed locate = (s.engine.books locate).top) := by
  obtain ⟨k, inv, follows⟩ := run_follows B expectedOrders slots msgs turns
  dsimp only
  generalize (initial B expectedOrders slots msgs).run turns = s at inv follows ⊢
  intro none
  have counted := follows.counted
  rw [none, Nat.add_zero] at counted
  have accepted : s.handler.ring.accepted = s.handler.publisher.offered := inv.order.eq_of_length counted
  obtain ⟨ch, ct, ring⟩ := inv.ring
  -- What is offered so far is what a run over the first `k` messages offers, but for a push under way.
  have front : s.handler.publisher.offered <+:
      ((FeedParser.create B expectedOrders 0).run FeedParser.roomy (msgs.take k)).handler.sink.offered := by
    have settles := congrArg Publisher.offered follows.publisher
    dsimp only at settles
    rw [← settles, settled]
    split
    · exact List.prefix_append ..
    · exact List.prefix_rfl
  have known := ring.fifo.trans (accepted ▸ front)
  obtain ⟨first, -, grown⟩ := @Runs.exists_growth _ _ _ _ (fun p : FeedParser B => p.handler.sink.offered) (fun _ => True)
    (fun _ _ _ => trivial) (fun p msg _ => p.parse_offered FeedParser.roomy msg) (FeedParser.create B expectedOrders 0) trivial
    (msgs.take k) rfl
  obtain ⟨inside, log⟩ := grown _ known.length_le
  have log := log.trans (List.prefix_iff_eq_take.mp known).symm
  rw [List.take_take] at log
  rw [List.length_take] at inside
  refine ⟨min (first s.handler.ring.consumed.length) k, ?_, fun locate => ?_, fun exited locate => ?_⟩
  · rw [follows.todo, List.length_drop]
    omega
  · exact (congrArg (viewOf · locate) log).symm.trans (FeedParser.viewOf_run B expectedOrders (room.take _) locate)
  · have loop := inv.loop
    rw [exited] at loop
    obtain ⟨-, done, drained, -⟩ := loop
    have all : s.handler.ring.consumed = s.handler.ring.accepted :=
      ring.fifo.eq_of_length_le (drained.trans_le ring.released_le)
    have settles := congrArg Publisher.offered follows.publisher
    rw [settled, done] at settles
    rw [all, accepted, follows.engine, ← FeedParser.viewOf_run B expectedOrders (room.take k) locate]
    exact congrArg (viewOf · locate) settles

/-- One bid, parsed and pushed by the feed thread, then popped by the consumer. -/
theorem consumer_view_sample :
    let s := (initial ⟨.avx2, 4⟩ 16 (fun _ => FeedHandler.oldEvent) (FeedParser.bidMessages 100 1)).run
      (List.replicate 5 true ++ List.replicate 9 false)
    ∀ locate, viewOf s.handler.ring.consumed locate = (s.engine.books locate).top := by
  obtain ⟨k, -, -, whole⟩ := consumer_view ⟨.avx2, 4⟩ ⟨16, by decide, by decide⟩ (fun _ => FeedHandler.oldEvent)
    (@FeedParser.room_bids ⟨.avx2, 4⟩ FeedParser.roomy 16 0 100 1 (by decide) (by decide))
    (List.replicate 5 true ++ List.replicate 9 false) (by decide +kernel)
  exact whole (by decide +kernel)

end FeedThreads

end Itch
