import Itch.SessionReplay

namespace Itch

/-! A level whose 32-bit count wrapped loses a multiple of 2 ^ 32 orders for good. -/

namespace LevelSide

variable {s t : LevelSide} {key : UInt32} {before after : Option Level} {low high : List Level}

/-- A level is held after a change only if it was before, or has just come. -/
theorem Touch.held (touch : s.Touch t key before after low high) {k : UInt32} (member : k ∈ t.keysHeld) :
    k ∈ s.keysHeld ∨ k = key ∧ after ≠ none := by
  rw [mem_keysHeld] at member ⊢
  by_cases here : k = key
  · subst here
    rw [touch.lookup_new] at member
    exact .inr ⟨rfl, member⟩
  · rw [touch.lookup_other here] at member
    exact .inl member

end LevelSide

namespace Sides

variable {sides : Sides} {live live' : List Order} {o : Order} {t : LevelSide} {before after : Option Level}
  {low high : List Level} {locate : UInt16} {bid : Bool} {key : UInt32}

theorem lookup_set (touch : (sides.get o).Touch t o.key before after low high) :
    ((sides.set o t) locate bid).lookup key =
      if o.locate = locate ∧ o.bid = bid ∧ o.key = key then after else (sides locate bid).lookup key := by
  rw [Sides.set]
  by_cases side : locate = o.locate ∧ bid = o.bid
  · obtain ⟨rfl, rfl⟩ := side
    rw [if_pos ⟨rfl, rfl⟩]
    by_cases here : key = o.key
    · rw [here, touch.lookup_new, if_pos ⟨rfl, rfl, rfl⟩]
    · rw [touch.lookup_other here, if_neg fun same => here same.2.2.symm]
      rfl
  · rw [if_neg side, if_neg fun same => side ⟨same.1.symm, same.2.1.symm⟩]

/-- Whatever the counts have become, the sides are arrays of levels at multiples of 4. -/
structure Loose (sides : Sides) : Prop where
  wf : ∀ locate bid, (sides locate bid).WF
  ticked : ∀ locate bid, ∀ key ∈ (sides locate bid).keysHeld, key.toNat % 4 = if bid then 0 else 3

theorem Loose.room (loose : sides.Loose) (o : Order) : (sides.get o).size < 2 ^ 31 := by
  have few := FeedSession.length_of_residue (loose.wf o.locate o.bid).keysHeld_nodup (loose.ticked o.locate o.bid)
  rw [LevelSide.keysHeld_length] at few
  exact Nat.lt_of_le_of_lt few (by decide)

theorem Loose.set (loose : sides.Loose) (wf : t.WF) (touch : (sides.get o).Touch t o.key before after low high)
    (ticked : after ≠ none → o.key ∈ (sides.get o).keysHeld ∨ o.key.toNat % 4 = if o.bid then 0 else 3) :
    (sides.set o t).Loose where
  wf locate bid := by
    rw [Sides.set]
    split
    · exact wf
    · exact loose.wf locate bid
  ticked locate bid key member := by
    rw [Sides.set] at member
    split at member
    · rename_i side
      obtain ⟨rfl, rfl⟩ := side
      rcases touch.held member with old | ⟨rfl, come⟩
      · exact loose.ticked _ _ key old
      · exact (ticked come).elim (loose.ticked _ _ o.key) id
    · exact loose.ticked locate bid key member

theorem Loose.take (loose : sides.Loose) (search : LevelSearch) (o : Order) (shares : UInt32) (gone : Bool) :
    (sides.set o ((sides.get o).reduce search o.key shares gone).1).Loose := by
  rcases LevelSide.reduce_spec search (loose.wf o.locate o.bid) o.key shares gone with
    ⟨-, missing⟩ | ⟨l, low, high, found, wf, touch, -⟩
  · have same : sides.set o ((sides.get o).reduce search o.key shares gone).1 = sides := by
      rw [Sides.get, missing]
      funext locate bid
      rw [Sides.set]
      split
      · rename_i side
        rw [side.1, side.2]
      · rfl
    rwa [same]
  · refine loose.set wf touch fun _ => .inl (LevelSide.mem_keysHeld.mpr ?_)
    rw [Sides.get, found]
    exact Option.some_ne_none l

/-- 2 ^ 32 or more orders rest at the key, of which the level has lost a multiple of 2 ^ 32,
be it all of them. -/
structure Lost (sides : Sides) (live : List Order) (locate : UInt16) (bid : Bool) (key : UInt32) : Prop where
  many : 2 ^ 32 ≤ (restingAt live locate bid key).length
  level : (sides locate bid).lookup key = none ∧ (restingAt live locate bid key).length % 2 ^ 32 = 0 ∨
    ∃ l, (sides locate bid).lookup key = some l ∧ l.orders = UInt32.ofNat (restingAt live locate bid key).length ∧
      2 ^ 32 < (restingAt live locate bid key).length

theorem Lost.perm (lost : sides.Lost live locate bid key) (perm : live.Perm live') : sides.Lost live' locate bid key := by
  have same := (@restingAt_perm _ locate bid key _ perm).length_eq
  obtain ⟨many, level⟩ := lost
  rw [same] at many level
  exact ⟨many, level⟩

/-- An order that joins finds the level as it is, or starts it anew. -/
theorem Lost.join (lost : sides.Lost live locate bid key)
    (touch : (sides.get o).Touch t o.key before (some (Level.join o.key o.shares before)) low high)
    (found : before = (sides.get o).lookup o.key) : (sides.set o t).Lost (o :: live) locate bid key := by
  by_cases here : o.locate = locate ∧ o.bid = bid ∧ o.key = key
  · obtain ⟨many, level⟩ := lost
    have set := @lookup_set sides o t _ _ _ _ locate bid key touch
    rw [if_pos here] at set
    obtain ⟨rfl, rfl, rfl⟩ := here
    have here : before = (sides o.locate o.bid).lookup o.key := found
    rw [← here] at level
    have own := congrArg List.length (restingAt_own o live)
    rw [List.length_cons] at own
    refine ⟨by omega, .inr ⟨_, set, ?_, by omega⟩⟩
    rw [own, UInt32.ofNat_add]
    rcases level with ⟨absent, whole⟩ | ⟨l, present, count, -⟩
    · rw [absent]
      have zero : UInt32.ofNat (restingAt live o.locate o.bid o.key).length = 0 := by
        refine UInt32.toNat_inj.mp ?_
        rw [UInt32.toNat_ofNat', whole]
        rfl
      rw [zero]
      rfl
    · rw [present, ← count]
      rfl
  · have set := @lookup_set sides o t _ _ _ _ locate bid key touch
    rw [if_neg here] at set
    obtain ⟨many, level⟩ := lost
    rw [← set, ← restingAt_other here] at level
    exact ⟨by rwa [restingAt_other here], level⟩

section Take

variable {shares : UInt32} {gone : Bool} (search : LevelSearch)
  (own : (restingAt live' o.locate o.bid o.key).length + (if gone then 1 else 0) = (restingAt live o.locate o.bid o.key).length)
include own

theorem count_take : UInt32.ofNat (restingAt live o.locate o.bid o.key).length - (if gone then 1 else 0) =
    UInt32.ofNat (restingAt live' o.locate o.bid o.key).length := by
  rw [← own, UInt32.ofNat_add]
  cases gone with
  | false => exact (UInt32.sub_zero _).trans (UInt32.add_zero _)
  | true => exact UInt32.add_sub_cancel _ _

/-- A level that loses 2 ^ 32 orders at a time goes when its count becomes zero. -/
theorem Lost.take (loose : sides.Loose) (lost : sides.Lost live locate bid key)
    (others : ¬ (o.locate = locate ∧ o.bid = bid ∧ o.key = key) →
      (restingAt live' locate bid key).length = (restingAt live locate bid key).length) :
    ((sides.get o).reduce search o.key shares gone).2 = .missingLevel ∨
      (sides.set o ((sides.get o).reduce search o.key shares gone).1).Lost live' locate bid key := by
  rcases LevelSide.reduce_spec search (loose.wf o.locate o.bid) o.key shares gone with
    ⟨-, missing⟩ | ⟨l, low, high, found, -, touch, -⟩
  · exact .inl (congrArg Prod.snd missing)
  refine .inr ?_
  have set := @lookup_set sides o _ _ _ _ _ locate bid key touch
  by_cases here : o.locate = locate ∧ o.bid = bid ∧ o.key = key
  · rw [if_pos here] at set
    obtain ⟨rfl, rfl, rfl⟩ := here
    obtain ⟨-, level⟩ := lost
    rcases level with ⟨absent, -⟩ | ⟨l', present, count, many⟩
    · rw [absent] at found
      cases found
    obtain rfl := Option.some.inj (present.symm.trans found)
    have left := count_take own
    rw [← count] at left
    rw [Level.leave, left] at set
    have enough : 2 ^ 32 ≤ (restingAt live' o.locate o.bid o.key).length := by
      split at own <;> omega
    by_cases zero : UInt32.ofNat (restingAt live' o.locate o.bid o.key).length = 0
    · rw [if_pos zero] at set
      have whole := congrArg UInt32.toNat zero
      rw [UInt32.toNat_ofNat'] at whole
      exact ⟨enough, .inl ⟨set, whole⟩⟩
    · rw [if_neg zero] at set
      have some : (restingAt live' o.locate o.bid o.key).length % 2 ^ 32 ≠ 0 := fun whole =>
        zero (UInt32.toNat_inj.mp (by rw [UInt32.toNat_ofNat', whole]; rfl))
      exact ⟨enough, .inr ⟨_, set, rfl, by omega⟩⟩
  · rw [if_neg here] at set
    obtain ⟨many, level⟩ := lost
    rw [← set, ← others here] at level
    exact ⟨by rwa [others here], level⟩

/-- The count that wraps to zero loses all that remain. -/
theorem Match.lose (same : sides.Match live) (member : o ∈ live)
    (uncounted : ¬ Counted (restingAt live' o.locate o.bid o.key).length) :
    (sides.set o ((sides.get o).reduce search o.key shares gone).1).Lost live' o.locate o.bid o.key := by
  have split := List.perm_cons_erase member
  obtain ⟨low, high, -, touch, -⟩ := (same.perm split).reduced search shares gone
  have set := @lookup_set sides o _ _ _ _ _ o.locate o.bid o.key touch
  have count := (@restingAt_perm _ o.locate o.bid o.key _ split).length_eq
  rw [restingAt_own, List.length_cons] at count
  have left := count_take own
  rw [if_pos ⟨rfl, rfl, rfl⟩, Level.leave, ← count, left] at set
  obtain ⟨whole, some⟩ := Classical.not_imp.mp uncounted
  rw [if_pos (UInt32.toNat_inj.mp (by rw [UInt32.toNat_ofNat', whole]; rfl))] at set
  exact ⟨by omega, .inl ⟨set, whole⟩⟩

end Take

theorem Match.loose (same : sides.Match live) (ticked : ∀ o ∈ live, o.price.toNat % 4 = 0) : sides.Loose where
  wf := same.wf
  ticked locate bid key member := by
    obtain ⟨o, resting⟩ := List.exists_mem_of_ne_nil _ ((same.mem_keysHeld locate bid key).mp member)
    obtain ⟨inside, -, rfl, rfl⟩ : o ∈ live ∧ o.locate = locate ∧ o.bid = bid ∧ o.key = key := by
      simpa [restingAt] using resting
    exact FeedSession.key_residue (ticked o inside)

end Sides

namespace BookEngine

variable {B : Build} {e e' : BookEngine B} {live live' : List Order} {o : Order}

/-- The engine has missed a level, or will if the orders of some level go. -/
structure Strays (e : BookEngine B) (live : List Order) : Prop where
  orders : e.orders.orders.Perm live
  loose : e.sides.Loose
  lost : e.stats.missingLevel ≠ 0 ∨ ∃ locate bid key, e.sides.Lost live locate bid key

theorem Strays.missed (strays : e.Strays []) : e.stats.missingLevel ≠ 0 := by
  rcases strays.lost with missed | ⟨locate, bid, key, many, -⟩
  · exact missed
  · exact absurd many (show ¬ 2 ^ 32 ≤ 0 by decide)

theorem Strays.add (strays : e.Strays live) (ticked : o.price.toNat % 4 = 0) :
    (e.add o.locate o.ref o.side o.shares o.price).1.Strays (o :: live) := by
  obtain ⟨orders, sides, stats, -⟩ := add_effect e o
  obtain ⟨wf, low, high, touch, -⟩ := LevelSide.add_spec B.search (strays.loose.wf o.locate o.bid) o.key o.shares
    (.inl (strays.loose.room o))
  refine ⟨orders.trans (strays.orders.cons o), ?_, ?_⟩
  · rw [sides]
    exact strays.loose.set wf touch fun _ => .inr (FeedSession.key_residue ticked)
  · rw [stats, sides]
    refine strays.lost.imp_right fun lost => ?_
    obtain ⟨locate, bid, key, lost⟩ := lost
    exact ⟨locate, bid, key, lost.join touch rfl⟩

/-- What a search adds to the missing levels. -/
theorem missed_searched {stats : EngineStats} {r : Reduce} (missed : stats.missingLevel ≠ 0 ∨ r = .missingLevel) :
    (searched stats r).missingLevel ≠ 0 := by
  rw [searched]
  split
  · exact Nat.succ_ne_zero _
  · rename_i found
    exact missed.resolve_right found

/-- The engine after it took from an order that rests among `live`, with `live'` left. -/
structure Took (e e' : BookEngine B) (o : Order) (shares : UInt32) (gone : Bool) (live live' : List Order) : Prop where
  orders : e'.orders.orders.Perm live'
  sides : e'.sides = e.sides.set o ((e.sides.get o).reduce B.search o.key shares gone).1
  stats : ∃ stats, stats.missingLevel = e.stats.missingLevel ∧
    e'.stats = searched stats ((e.sides.get o).reduce B.search o.key shares gone).2
  own : (restingAt live' o.locate o.bid o.key).length + (if gone then 1 else 0) = (restingAt live o.locate o.bid o.key).length
  others : ∀ locate bid key, ¬ (o.locate = locate ∧ o.bid = bid ∧ o.key = key) →
    (restingAt live' locate bid key).length = (restingAt live locate bid key).length

section Took

variable {shares : UInt32} {gone : Bool} (took : Took e e' o shares gone live live')
include took

theorem Strays.take (strays : e.Strays live) : e'.Strays live' := by
  obtain ⟨orders, sides, ⟨stats, same, searched⟩, own, others⟩ := took
  refine ⟨orders, sides ▸ strays.loose.take B.search o shares gone, ?_⟩
  rw [searched, sides]
  rcases strays.lost with missed | ⟨locate, bid, key, lost⟩
  · exact .inl (missed_searched (.inl (same ▸ missed)))
  · rcases lost.take B.search own strays.loose (others locate bid key) with missing | still
    · exact .inl (missed_searched (.inr missing))
    · exact .inr ⟨locate, bid, key, still⟩

/-- An engine in step goes astray when it takes from a level whose count wraps to zero. -/
theorem Took.strays (same : e.sides.Match live) (ticked : ∀ o ∈ live, o.price.toNat % 4 = 0) (member : o ∈ live)
    (uncounted : ¬ Counted (restingAt live' o.locate o.bid o.key).length) : e'.Strays live' := by
  obtain ⟨orders, sides, -, own, -⟩ := took
  refine ⟨orders, sides ▸ (same.loose ticked).take B.search o shares gone, .inr ?_⟩
  rw [sides]
  exact ⟨_, _, _, same.lose B.search own member uncounted⟩

end Took

section Known

variable {n : NaiveEngine} {ref : UInt64} {p : e.orders.Pointer} (orders : e.orders.orders.Perm n.live.entries)
  (found : e.orders.find ref = some p)
include orders found

theorem took_remove : Took e (e.remove ref).1 p.order p.order.shares true n.live.entries (n.live.erase ref).entries := by
  have live := find_live orders ref
  rw [found] at live
  have split := KeyedList.entries_perm live.symm
  obtain ⟨after, sides, stats, -⟩ := remove_effect e found
  refine ⟨(after.symm.trans (orders.trans split)).cons_inv, sides, ⟨_, rfl, stats⟩, ?_, fun locate bid key other => ?_⟩
  · rw [(restingAt_perm split).length_eq, restingAt_own]
    rfl
  · rw [(restingAt_perm split).length_eq, restingAt_other other]

theorem took_reduce {shares : UInt32} (some : 1 ≤ shares) (le : shares ≤ p.order.shares) :
    Took e (e.reduce ref shares).1 p.order shares (p.order.shares - shares = 0) n.live.entries
      (n.apply (.reduce ref shares)).live.entries := by
  have live := find_live orders ref
  rw [found] at live
  have live : n.live.find? ref = .some p.order := live.symm
  have split := KeyedList.entries_perm live
  obtain ⟨member, rfl⟩ := KeyedList.find?_eq_some.mp live
  have nonzero : shares ≠ 0 := by
    rintro rfl
    cases some
  have all : p.order.taken shares = shares := if_neg (UInt32.not_lt.mpr le)
  have effect := reduce_effect e found (all ▸ nonzero) rfl
  rw [all] at effect
  obtain ⟨after, sides, stats, -⟩ := effect
  have after := after _ (orders.trans split)
  have left := NaiveEngine.apply_reduce split nonzero le
  have remains : (n.apply (.reduce p.order.ref shares)).live.entries.Perm
      (if p.order.shares - shares = 0 then (n.live.erase p.order.ref).entries
        else { p.order with shares := p.order.shares - shares } :: (n.live.erase p.order.ref).entries) := by
    refine left.trans (List.Perm.of_eq ?_)
    rw [remainder]
    split <;> rfl
  refine ⟨after.trans remains.symm, sides, ⟨_, ?_, stats⟩, ?_, fun locate bid key other => ?_⟩
  · rw [overfilled, if_neg (UInt32.not_lt.mpr le)]
  · rw [(restingAt_perm remains).length_eq, (restingAt_perm split).length_eq]
    split
    · rename_i gone
      rw [decide_eq_true gone, restingAt_own]
      rfl
    · rename_i stays
      rw [decide_eq_false stays, restingAt_shares]
      rfl
  · rw [(restingAt_perm remains).length_eq, (restingAt_perm split).length_eq, restingAt_other other]
    split
    · rfl
    · rw [restingAt_shares, restingAt_other other]

end Known

end BookEngine

end Itch
