import Itch.LostLevels

namespace Itch

namespace BookEngine

variable {B : Build} {e : BookEngine B} {s : FeedSession}

/-- A consistent call takes from a live order, or only adds one. -/
theorem call_cases (sound : s.Sound) (orders : e.orders.orders.Perm s.engine.live.entries) {m : BookMessage}
    (consistent : s.Consistent (.book m)) (ticked : FeedSession.Ticked (.book m)) :
    (m.call.takes = none ∧ (e.Strays s.engine.live.entries →
      (e.call m.call).1.Strays (s.engine.apply m.call).live.entries)) ∨
    ∃ o t shares gone, m.call.takes.bind s.engine.live.find? = some o ∧
      Took e t o shares gone s.engine.live.entries (s.engine.rest m.call) ∧
      (t.Strays (s.engine.rest m.call) → (e.call m.call).1.Strays (s.engine.apply m.call).live.entries) := by
  have known : ∀ {ref o}, s.engine.live.find? ref = some o → ∃ p : e.orders.Pointer, e.orders.find ref = some p ∧ p.order = o := by
    intro ref o live
    have same := find_live orders ref
    rw [live] at same
    exact Option.map_eq_some_iff.mp same
  rw [FeedSession.Consistent] at consistent
  rw [FeedSession.Ticked] at ticked
  cases called : m.call with
  | add locate ref side shares price =>
    rw [called] at consistent ticked
    refine .inl ⟨rfl, fun strays => ?_⟩
    have added := @Strays.add B e _ ⟨ref, price, shares, locate, side⟩ strays (ticked _ rfl)
    have absent : s.engine.live.find? ref = none := sound.fresh_ref consistent
    exact (@KeyedList.insert_entries _ _ _ _ _ (⟨ref, price, shares, locate, side⟩ : Order) absent) ▸ added
  | reduce ref shares =>
    rw [called] at consistent
    obtain ⟨o, live, -, some, le⟩ := consistent
    obtain ⟨p, found, rfl⟩ := known live
    exact .inr ⟨_, _, _, _, live, took_reduce orders found some le, id⟩
  | remove ref =>
    rw [called] at consistent
    obtain ⟨o, live, -⟩ := consistent
    obtain ⟨p, found, rfl⟩ := known live
    refine .inr ⟨_, _, _, _, live, took_remove orders found, fun strays => ?_⟩
    rw [NaiveEngine.apply, NaiveEngine.onLive, live]
    exact strays
  | replace oldRef newRef shares price =>
    rw [called] at consistent ticked
    obtain ⟨unused, o, live, -⟩ := consistent
    obtain ⟨p, found, rfl⟩ := known live
    refine .inr ⟨_, _, _, _, live, took_remove orders found, fun strays => ?_⟩
    have added := @Strays.add B _ _ { p.order with ref := newRef, shares, price } strays (ticked _ rfl)
    have absent : (s.engine.live.erase oldRef).find? newRef = none := KeyedList.find?_erase fun _ => sound.fresh_ref unused
    rw [NaiveEngine.apply, NaiveEngine.onLive, live, call, replace_eq e found]
    exact (@KeyedList.insert_entries _ _ _ _ _ { p.order with ref := newRef, shares, price } absent) ▸ added

theorem Strays.prepare {live : List Order} (strays : e.Strays live) (locate : UInt16) : (e.prepare locate).Strays live := by
  have lookup : ∀ l bid key, ((e.prepare locate).sides l bid).lookup key = (e.sides l bid).lookup key := by
    intro l bid key
    rw [prepare_sides]
    split
    · exact (LevelSide.reserveInitial_spec (strays.loose.wf l bid)).2 key
    · rfl
  refine ⟨strays.orders, ⟨?_, ?_⟩, strays.lost.imp_right ?_⟩
  · intro l bid
    rw [prepare_sides]
    split
    · exact (LevelSide.reserveInitial_spec (strays.loose.wf l bid)).1
    · exact strays.loose.wf l bid
  · intro l bid key member
    rw [LevelSide.mem_keysHeld, lookup, ← LevelSide.mem_keysHeld] at member
    exact strays.loose.ticked l bid key member
  · rintro ⟨l, bid, key, many, level⟩
    rw [← lookup] at level
    exact ⟨l, bid, key, many, level⟩

end BookEngine

namespace FeedSession

variable {B : Build} {b : BookBuilder B Unit} {s : FeedSession} {m : Message}

/-- An engine that is astray stays so. -/
theorem strays_on (sound : s.Sound) (strays : b.engine.Strays s.engine.live.entries) (consistent : s.Consistent m)
    (ticked : Ticked m) : (b.on (nullSink B) m).engine.Strays (s.on m).engine.live.entries := by
  cases m with
  | book m =>
    rw [BookBuilder.on, BookBuilder.onBookMessage_eq]
    rcases BookEngine.call_cases sound strays.orders consistent ticked with ⟨-, adds⟩ | ⟨o, t, shares, gone, -, took, adds⟩
    · exact adds strays
    · exact adds (strays.take took)
  | stockDirectory m => exact strays.prepare m.locate
  | systemEvent m => exact strays
  | other p => exact strays

/-- It goes astray with the first message that the counts do not bear. -/
theorem goes_astray (sound : s.Sound) (tracks : b.engine.Tracks s.engine) (consistent : s.Consistent m) (ticked : Ticked m)
    (uncounted : ¬ s.Counts m) : (b.on (nullSink B) m).engine.Strays (s.on m).engine.live.entries := by
  cases m with
  | book m =>
    rw [BookBuilder.on, BookBuilder.onBookMessage_eq]
    obtain ⟨o, taken, wraps⟩ : ∃ o ∈ m.call.takes.bind s.engine.live.find?,
        ¬ Counted (restingAt (s.engine.rest m.call) o.locate o.bid o.key).length := by
      by_contra none
      refine uncounted fun o taken => ?_
      by_contra wraps
      exact none ⟨o, taken, wraps⟩
    rcases BookEngine.call_cases sound tracks.orders consistent ticked with ⟨none, -⟩ | ⟨o', t, shares, gone, live, took, adds⟩
    · rw [none] at taken
      cases taken
    · obtain rfl := Option.some.inj (live.symm.trans taken)
      obtain ⟨ref, -, found⟩ := Option.bind_eq_some_iff.mp live
      exact adds (took.strays tracks.sides sound.ticked (KeyedList.find?_eq_some.mp found).1 wraps)
  | stockDirectory m => exact absurd trivial uncounted
  | systemEvent m => exact absurd trivial uncounted
  | other p => exact absurd trivial uncounted

section Runs

variable {ms : List Message} (consistent : Runs.Every on Consistent {} ms) (ticked : Runs.Every on (fun _ m => Ticked m) {} ms)
include consistent ticked

/-- Where the counts do not bear a message of a session that ends empty, a level is missed. -/
theorem missed_run (uncounted : ¬ Runs.Every on Counts {} ms) (drained : (ms.foldl on {}).engine.live.entries = [])
    (idle : b.engine.Idle) : (ms.foldl (BookBuilder.on (nullSink B)) b).engine.stats.missingLevel ≠ 0 := by
  obtain ⟨front, m, back, rfl, counts, wraps⟩ := Runs.exists_first_failure uncounted
  rw [List.foldl_append, List.foldl_cons] at drained ⊢
  rw [Runs.every_append_run] at consistent ticked
  obtain ⟨before, here, after⟩ := consistent
  obtain ⟨before', here', after'⟩ := ticked
  have sound := sound_run before before'
  have astray := goes_astray sound (tracks_run before before' counts idle) here here' wraps
  have related := @Runs.Every.simulates _ _ _ on (BookBuilder.on (nullSink B)) _
    (fun s b => b.engine.Strays s.engine.live.entries ∧ s.Sound) ?_ _ _ back ⟨astray, sound.on here here'⟩ (after.and after')
  · exact (drained ▸ related.1).missed
  · intro s b m holds ok
    exact ⟨strays_on holds.2 holds.1 ok.1 ok.2, holds.2.on ok.1 ok.2⟩

end Runs

end FeedSession

end Itch
