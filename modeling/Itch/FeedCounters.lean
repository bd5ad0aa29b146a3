import Itch.FeedMarket
import Mathlib.Data.Finset.Card

namespace Itch

/-- Whether a message adds an order that takes no other's place. -/
def BookMessage.opens : BookMessage → Bool
  | .addOrder _ => true
  | .addOrderMpid _ => true
  | _ => false

/-- Market hours after a message: a system event 'Q' starts and an 'M' ends them. -/
def marketHours (during : Bool) : Message → Bool
  | .systemEvent m => if m.eventCode = ascii 'M' then false else if m.eventCode = ascii 'Q' then true else during
  | .book _ => during
  | .stockDirectory _ => during
  | .other _ => during

/-- Whether the market is open after a feed of messages. -/
def openAfter (msgs : List (List UInt8)) : Bool :=
  ((msgs.filter Parser.WellFormed).map Message.decode).foldl marketHours false

namespace Publisher

variable {B : Build}

theorem record_counters (s : Publisher) (e : BookEngine B) (m : BookMessage) (u : BookUpdate) :
    (s.record e m u).marketOpen = s.marketOpen ∧
      (s.record e m u).peakLive = (if u.known && m.opens then max s.peakLive e.orders.size else s.peakLive) ∧
      (s.record e m u).crossedUpdates = s.crossedUpdates +
        if (u.known && u.topChanged) && (s.marketOpen && (e.books u.locate).crossed) then 1 else 0 := by
  unfold record
  cases u.known <;> cases u.topChanged <;> cases m <;> dsimp only [BookMessage.opens] <;>
    by_cases meets : (s.marketOpen && (e.books u.locate).crossed) = true <;> simp [meets]

end Publisher

namespace NaiveEngine

variable (n : NaiveEngine)

theorem length_insert_known {o o' : Order} (found : n.live.find? o'.ref = some o) :
    (n.live.insert o').entries.length = n.live.entries.length := by
  have split := (KeyedList.entries_perm found).length_eq
  rw [List.length_cons] at split
  exact split.symm

theorem length_insert_le (m : LiveOrders) (o : Order) : (m.insert o).entries.length ≤ m.entries.length + 1 :=
  Nat.succ_le_succ (List.length_filter_le ..)

/-- Only an add makes more orders live. -/
theorem apply_length_le {m : BookMessage} (stays : m.opens = false) :
    (n.apply m.call).live.entries.length ≤ n.live.entries.length := by
  have onLive : ∀ ref action, (∀ o, n.live.find? ref = some o → (action o).live.entries.length ≤ n.live.entries.length) →
      (n.onLive ref action).live.entries.length ≤ n.live.entries.length := by
    intro ref action le
    rw [NaiveEngine.onLive]
    split
    · exact le_rfl
    · rename_i o found
      exact le o found
  have taken : ∀ ref shares, (n.apply (.reduce ref shares)).live.entries.length ≤ n.live.entries.length := by
    intro ref shares
    refine onLive ref _ fun o found => ?_
    have same := n.overfilled_live o shares
    generalize n.overfilled o shares = k at *
    rw [take]
    split
    · rw [same]
    · split
      · rw [same]
        exact List.length_filter_le ..
      · obtain rfl := (KeyedList.find?_eq_some.mp found).2
        exact (k.length_insert_known (o := o) (by rw [same]; exact found)).le.trans_eq (congrArg (fun m => m.entries.length) same)
  cases m with
  | addOrder m => cases stays
  | addOrderMpid m => cases stays
  | orderExecuted m => exact taken ..
  | orderExecutedWithPrice m => exact taken ..
  | orderCancel m => exact taken ..
  | orderDelete m => exact onLive _ _ fun _ _ => List.length_filter_le ..
  | orderReplace m =>
    refine onLive _ _ fun o found => (length_insert_le _ _).trans ?_
    have split := (KeyedList.entries_perm found).length_eq
    rw [List.length_cons] at split
    exact split.ge

end NaiveEngine

variable {B : Build}

namespace BookBuilder

/-- What a step to `b'`, after which the market is `hours` and these orders are live, does to
the counters of the publisher. -/
structure Tallies (b b' : BookBuilder B Publisher) (hours : Bool) (live : List Order) : Prop where
  hours : b'.sink.marketOpen = hours
  peak : b'.sink.peakLive = max b.sink.peakLive live.length
  crossed : ∃ counts : Bool, b'.sink.crossedUpdates = b.sink.crossedUpdates + counts.toNat ∧
    (counts = true ↔ b.sink.marketOpen = true ∧ ∃ ev, b'.sink.offered = b.sink.offered ++ [ev] ∧ Meets live ev.locate)

variable {b b' : BookBuilder B Publisher} {n : NaiveEngine} {live : List Order}

/-- A step that offers nothing. -/
theorem Tallies.quiet {hours : Bool} (now : b'.sink.marketOpen = hours)
    (peak : b'.sink.peakLive = max b.sink.peakLive live.length) (crossed : b'.sink.crossedUpdates = b.sink.crossedUpdates)
    (offered : b'.sink.offered = b.sink.offered) : b.Tallies b' hours live where
  hours := now
  peak := peak
  crossed := by
    refine ⟨false, crossed, ?_⟩
    constructor
    · intro no
      cases no
    · rintro ⟨-, ev, more, -⟩
      have same := offered.symm.trans more
      simp at same

/-- A message about an order. -/
theorem Tallies.notify (m : BookMessage) {n' : NaiveEngine} (accepts : List BookEvent → Bool)
    (after : (b.engine.call m.call).1.Tracks n') (few : FitCounts n'.live.entries)
    (seen : n.live.entries.length ≤ b.sink.peakLive) (fewer : m.opens = false → n'.live.entries.length ≤ n.live.entries.length) :
    b.Tallies (b.notify (Publisher.sink accepts) m (b.engine.call m.call)) b.sink.marketOpen n'.live.entries := by
  obtain ⟨hours, peak, crossed⟩ := b.sink.record_counters (b.engine.call m.call).1 m (b.engine.call m.call).2
  have size : (b.engine.call m.call).1.orders.size = n'.live.entries.length := by
    rw [OrderMap.size_eq]
    exact after.orders.length_eq
  have highest : (b.sink.record (b.engine.call m.call).1 m (b.engine.call m.call).2).peakLive =
      max b.sink.peakLive n'.live.entries.length := by
    rw [peak, size]
    cases opens : m.opens with
    | false =>
      rw [Bool.and_false, if_neg Bool.false_ne_true]
      exact (max_eq_left ((fewer opens).trans seen)).symm
    | true =>
      have known : (b.engine.call m.call).2.known = true := by
        cases m with
        | addOrder m => rfl
        | addOrderMpid m => rfl
        | orderExecuted m => cases opens
        | orderExecutedWithPrice m => cases opens
        | orderCancel m => cases opens
        | orderDelete m => cases opens
        | orderReplace m => cases opens
      rw [known, Bool.and_true, if_pos rfl]
  have sink : (b.notify (Publisher.sink accepts) m (b.engine.call m.call)).sink = _ :=
    Publisher.onBook_eq accepts (b.engine.call m.call).1 b.sink m (b.engine.call m.call).2
  by_cases changed : ((b.engine.call m.call).2.known && (b.engine.call m.call).2.topChanged) = true
  · rw [if_pos changed] at sink
    rw [changed, Bool.true_and] at crossed
    refine ⟨?_, ?_, b.sink.marketOpen && ((b.engine.call m.call).1.books (b.engine.call m.call).2.locate).crossed, ?_, ?_⟩
    · rw [sink]
      exact hours
    · rw [sink]
      exact highest
    · rw [sink]
      refine crossed.trans (congrArg _ ?_)
      cases b.sink.marketOpen && ((b.engine.call m.call).1.books (b.engine.call m.call).2.locate).crossed <;> rfl
    · rw [Bool.and_eq_true, after.crossed few, sink]
      refine and_congr_right fun _ => ?_
      have offered := (FeedHandler.record_counts b.sink (b.engine.call m.call).1 m (b.engine.call m.call).2).1
      constructor
      · intro meets
        exact ⟨b.sink.event (b.engine.call m.call).1 m (b.engine.call m.call).2, congrArg (· ++ _) offered, meets⟩
      · rintro ⟨ev, more, meets⟩
        have same : b.sink.offered ++ [b.sink.event (b.engine.call m.call).1 m (b.engine.call m.call).2] = b.sink.offered ++ [ev] :=
          (congrArg (· ++ _) offered).symm.trans more
        obtain rfl := List.singleton_inj.mp (List.append_cancel_left same)
        exact meets
  · rw [if_neg changed] at sink
    rw [Bool.eq_false_of_not_eq_true changed, Bool.false_and, if_neg Bool.false_ne_true, Nat.add_zero] at crossed
    refine .quiet ?_ ?_ ?_ ?_
    · rw [sink]
      exact hours
    · rw [sink]
      exact highest
    · rw [sink]
      exact crossed
    · rw [sink]
      exact (FeedHandler.record_counts b.sink (b.engine.call m.call).1 m (b.engine.call m.call).2).1

theorem Tallies.on {m : Message} (accepts : List BookEvent → Bool)
    (after : (b.on (Publisher.sink accepts) m).engine.Tracks (n.on m)) (few : FitCounts (n.on m).live.entries)
    (seen : n.live.entries.length ≤ b.sink.peakLive) :
    b.Tallies (b.on (Publisher.sink accepts) m) (marketHours b.sink.marketOpen m) (n.on m).live.entries := by
  cases m with
  | book m =>
    rw [BookBuilder.on, onBookMessage_eq] at after ⊢
    exact .notify m accepts after few seen n.apply_length_le
  | stockDirectory m => exact .quiet rfl (max_eq_left seen).symm rfl rfl
  | other m => exact .quiet rfl (max_eq_left seen).symm rfl rfl
  | systemEvent m =>
    have sink : (b.on (Publisher.sink accepts) (.systemEvent m)).sink = b.sink.on (.systemEvent m) := rfl
    refine .quiet ?_ ?_ ?_ ?_ <;> rw [sink, Publisher.on]
    · rw [marketHours]
      split <;> split <;> rfl
    · split <;> split <;> exact (max_eq_left seen).symm
    · split <;> split <;> rfl
    · split <;> split <;> rfl

end BookBuilder

namespace FeedParser

variable {p : FeedParser B} {n : NaiveEngine} {accepts : List BookEvent → Bool}

theorem openAfter_snoc (msgs : List (List UInt8)) (msg : List UInt8) : openAfter (msgs ++ [msg]) =
    if Parser.WellFormed msg then marketHours (openAfter msgs) (.decode msg) else openAfter msgs := by
  rw [openAfter, List.filter_append, List.map_append, List.foldl_append, List.filter_singleton]
  split <;> rename_i formed
  · rw [decide_eq_true formed]
    rfl
  · rw [decide_eq_false formed]
    rfl

theorem Shows.tallies (shows : p.Shows n) {msg : List UInt8} (takes : n.Takes msg)
    (seen : n.live.entries.length ≤ p.handler.sink.peakLive) :
    p.handler.Tallies (p.parse accepts msg).handler
      (if Parser.WellFormed msg then marketHours p.handler.sink.marketOpen (.decode msg) else p.handler.sink.marketOpen)
      (n.parse msg).live.entries := by
  have after := @Shows.parse _ _ _ accepts shows msg takes
  obtain ⟨-, after, few⟩ := after
  rw [parse_handler] at after ⊢
  rw [NaiveEngine.parse] at after few ⊢
  by_cases formed : Parser.WellFormed msg
  · rw [if_pos formed] at after few ⊢
    rw [if_pos formed] at after ⊢
    rw [if_pos formed]
    exact .on accepts after few seen
  · rw [if_neg formed, if_neg formed, if_neg formed]
    exact .quiet rfl (max_eq_left seen).symm rfl rfl

open Classical in
/-- The messages that offered an event, in market hours, for a book in which then a bid met an ask. -/
noncomputable def crossings (sent : List (List UInt8) → Publisher) (msgs : List (List UInt8)) : Finset Nat :=
  (Finset.range msgs.length).filter fun i => openAfter (msgs.take i) = true ∧
    ∃ ev, (sent (msgs.take (i + 1))).offered = (sent (msgs.take i)).offered ++ [ev] ∧
      Meets (NaiveEngine.liveAfter (msgs.take (i + 1))) ev.locate

open Classical in
theorem crossings_snoc (sent : List (List UInt8) → Publisher) (msgs : List (List UInt8)) (msg : List UInt8) :
    (crossings sent (msgs ++ [msg])).card = (crossings sent msgs).card +
      if openAfter msgs = true ∧ ∃ ev, (sent (msgs ++ [msg])).offered = (sent msgs).offered ++ [ev] ∧
        Meets (NaiveEngine.liveAfter (msgs ++ [msg])) ev.locate then 1 else 0 := by
  have earlier : ∀ i ≤ msgs.length, (msgs ++ [msg]).take i = msgs.take i := fun i le => List.take_append_of_le_length le
  have whole : (msgs ++ [msg]).take (msgs.length + 1) = msgs ++ [msg] := List.take_of_length_le (by simp)
  have same : (Finset.range msgs.length).filter (fun i => openAfter ((msgs ++ [msg]).take i) = true ∧
      ∃ ev, (sent ((msgs ++ [msg]).take (i + 1))).offered = (sent ((msgs ++ [msg]).take i)).offered ++ [ev] ∧
        Meets (NaiveEngine.liveAfter ((msgs ++ [msg]).take (i + 1))) ev.locate) = crossings sent msgs := by
    refine Finset.filter_congr fun i inside => ?_
    have less := Finset.mem_range.mp inside
    rw [earlier i less.le, earlier (i + 1) less]
  rw [crossings, List.length_append, List.length_singleton, Finset.range_add_one, Finset.filter_insert, same, whole,
    earlier _ le_rfl, List.take_length]
  split
  · refine Finset.card_insert_of_notMem fun inside => ?_
    exact absurd (Finset.mem_range.mp (Finset.mem_filter.mp inside).1) (Nat.lt_irrefl _)
  · rfl

/-- What the feed handler reports at the end: the most orders that were live after any of the
messages, and how many events showed a bid that met an ask in market hours. -/
theorem report_counts (B : Build) (expectedOrders : TableSize B.group) (recvTsc : UInt64) (accepts : List BookEvent → Bool)
    {msgs : List (List UInt8)} (takes : Runs.Every NaiveEngine.parse NaiveEngine.Takes {} msgs) :
    let sent := fun msgs => ((create B expectedOrders recvTsc).run accepts msgs).handler.sink
    (∀ k, (NaiveEngine.liveAfter (msgs.take k)).length ≤ (sent msgs).peakLive) ∧
    (∃ k, (NaiveEngine.liveAfter (msgs.take k)).length = (sent msgs).peakLive) ∧
    (sent msgs).crossedUpdates = (crossings sent msgs).card := by
  intro sent
  suffices open' : (sent msgs).marketOpen = openAfter msgs ∧ (∀ k, (NaiveEngine.liveAfter (msgs.take k)).length ≤ (sent msgs).peakLive) ∧
      (∃ k, (NaiveEngine.liveAfter (msgs.take k)).length = (sent msgs).peakLive) ∧
      (sent msgs).crossedUpdates = (crossings sent msgs).card from open'.2
  induction msgs using List.reverseRecOn with
  | nil =>
    refine ⟨rfl, fun k => ?_, ⟨0, rfl⟩, rfl⟩
    rw [List.take_nil]
    exact Nat.le_refl 0
  | append_singleton msgs msg ih =>
    obtain ⟨earlier, takes⟩ := Runs.every_append.mp takes
    obtain ⟨hours, highest, ⟨top, reached⟩, crossed⟩ := ih earlier
    have shows := @Shows.run _ _ _ accepts _ (create_shows B expectedOrders recvTsc) earlier
    have seen := highest msgs.length
    rw [List.take_length] at seen
    have step : sent (msgs ++ [msg]) = (((create B expectedOrders recvTsc).run accepts msgs).parse accepts msg).handler.sink :=
      congrArg (fun p : FeedParser B => p.handler.sink) (List.foldl_append ..)
    have live : NaiveEngine.liveAfter (msgs ++ [msg]) = ((msgs.foldl NaiveEngine.parse {}).parse msg).live.entries :=
      congrArg (fun n : NaiveEngine => n.live.entries) (List.foldl_append ..)
    obtain ⟨now, peak, counts, more, crosses⟩ := @Shows.tallies _ _ _ accepts shows msg takes seen
    change _ = (if Parser.WellFormed msg then marketHours (sent msgs).marketOpen (.decode msg) else (sent msgs).marketOpen) at now
    change _ = max (sent msgs).peakLive _ at peak
    change _ = (sent msgs).crossedUpdates + _ at more
    change _ ↔ (sent msgs).marketOpen = true ∧ ∃ ev, _ = (sent msgs).offered ++ [ev] ∧ _ at crosses
    rw [← step] at now peak more crosses
    rw [← live] at peak crosses
    have front : ∀ k ≤ msgs.length, (msgs ++ [msg]).take k = msgs.take k := fun k le => List.take_append_of_le_length le
    have whole : ∀ k, msgs.length < k → (msgs ++ [msg]).take k = msgs ++ [msg] := fun k lt =>
      List.take_of_length_le (by simpa using Nat.succ_le_of_lt lt)
    refine ⟨?_, fun k => ?_, ?_, ?_⟩
    · rw [now, hours, openAfter_snoc]
    · rw [peak]
      by_cases early : k ≤ msgs.length
      · rw [front k early]
        exact (highest k).trans (le_max_left ..)
      · rw [whole k (by omega)]
        exact le_max_right ..
    · rw [peak]
      rcases le_total (NaiveEngine.liveAfter (msgs ++ [msg])).length (sent msgs).peakLive with lower | higher
      · refine ⟨min top msgs.length, ?_⟩
        rw [max_eq_left lower, front _ (Nat.min_le_right ..), ← reached]
        rcases le_total top msgs.length with inside | past
        · rw [min_eq_left inside]
        · rw [min_eq_right past, List.take_length, List.take_of_length_le past]
      · refine ⟨msgs.length + 1, ?_⟩
        rw [max_eq_right higher, whole _ (Nat.lt_succ_self _)]
    · rw [more, crossed, crossings_snoc, ← hours]
      congr 1
      cases counts with
      | false => exact (if_neg fun meets => Bool.false_ne_true (crosses.mpr meets)).symm
      | true => exact (if_pos (crosses.mp rfl)).symm

theorem report_counts_sample :
    ∃ k, (NaiveEngine.liveAfter ((bidMessages 100 2).take k)).length =
      ((create ⟨.avx2, 4⟩ 16 0).run (fun _ => true) (bidMessages 100 2)).handler.sink.peakLive :=
  (report_counts ⟨.avx2, 4⟩ ⟨16, by decide, by decide⟩ 0 (fun _ => true) (by decide +kernel)).2.1

end FeedParser

end Itch
