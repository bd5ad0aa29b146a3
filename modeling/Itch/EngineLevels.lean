import Itch.LevelSummary

namespace Itch

namespace Sides

/-- Every side holds exactly the levels that the live orders make up. -/
structure Match (sides : Sides) (live : List Order) : Prop where
  wf : ∀ locate bid, (sides locate bid).WF
  levels : ∀ locate bid key, (sides locate bid).lookup key = summary key (restingAt live locate bid key)

variable {sides : Sides} {live : List Order}

theorem Match.perm {live' : List Order} (same : sides.Match live) (perm : live.Perm live') : sides.Match live' where
  wf := same.wf
  levels locate bid key := (same.levels locate bid key).trans (summary_perm (restingAt_perm perm))

/-- The step on one side: the orders at its key are now `here`, all others rest where they did. -/
theorem Match.set {live' : List Order} (same : sides.Match live) {o : Order} {t : LevelSide} {before after : Option Level}
    {low high : List Level} (wf : t.WF) (touch : (sides.get o).Touch t o.key before after low high)
    (here : after = summary o.key (restingAt live' o.locate o.bid o.key))
    (there : ∀ locate bid key, ¬ (o.locate = locate ∧ o.bid = bid ∧ o.key = key) →
      restingAt live' locate bid key = restingAt live locate bid key) : (sides.set o t).Match live' where
  wf locate bid := by
    rw [Sides.set]
    split
    · exact wf
    · exact same.wf locate bid
  levels locate bid key := by
    rw [Sides.set]
    split
    · rename_i side
      obtain ⟨rfl, rfl⟩ := side
      by_cases at' : key = o.key
      · subst at'
        rw [touch.lookup_new, here]
      · rw [touch.lookup_other at', there _ _ _ fun eq => at' eq.2.2.symm]
        exact same.levels _ _ key
    · rename_i other
      rw [there _ _ _ fun eq => other ⟨eq.1.symm, eq.2.1.symm⟩]
      exact same.levels locate bid key

/-- An order joins its side. -/
theorem Match.add (same : sides.Match live) (search : LevelSearch) (o : Order)
    (room : (sides.get o).size < 2 ^ 31 ∨ restingAt live o.locate o.bid o.key ≠ []) :
    (sides.set o ((sides.get o).add search o.key o.shares).1).Match (o :: live) := by
  have level := same.levels o.locate o.bid o.key
  have space : (sides.get o).size < 2 ^ 31 ∨ (sides.get o).lookup o.key ≠ none := by
    refine room.imp_right fun some none => ?_
    exact some (summary_eq_none.mp (level.symm.trans none))
  obtain ⟨wf, low, high, touch, -⟩ := LevelSide.add_spec search (same.wf _ _) o.key o.shares space
  refine same.set wf touch ?_ fun locate bid key other => restingAt_other other
  rw [restingAt_own, summary_cons, ← level]

section Reduce

variable {o : Order} (same : sides.Match (o :: live)) (search : LevelSearch)
include same

/-- The level of a live order is found. -/
theorem Match.reduced (shares : UInt32) (gone : Bool) : ∃ low high,
    ((sides.get o).reduce search o.key shares gone).1.WF ∧
      (sides.get o).Touch ((sides.get o).reduce search o.key shares gone).1 o.key
        (summary o.key (restingAt (o :: live) o.locate o.bid o.key))
        (Level.leave o.key shares gone ⟨o.key, UInt64.ofNat (totalShares (o :: restingAt live o.locate o.bid o.key)),
          UInt32.ofNat ((restingAt live o.locate o.bid o.key).length + 1)⟩) low high ∧
      ((sides.get o).reduce search o.key shares gone).2 ≠ .missingLevel := by
  have level := same.levels o.locate o.bid o.key
  rw [restingAt_own, summary_cons_eq] at level ⊢
  rcases LevelSide.reduce_spec search (same.wf o.locate o.bid) o.key shares gone with
    ⟨absent, -⟩ | ⟨l, low, high, found, wf, touch, result⟩
  · rw [level] at absent
    cases absent
  · obtain rfl := Option.some.inj (level.symm.trans found)
    refine ⟨low, high, wf, touch, ?_⟩
    rw [Sides.get, result]
    split <;> (intro missing; cases missing)

/-- An order leaves its side. -/
theorem Match.drop (counted : Counted (restingAt live o.locate o.bid o.key).length) :
    (sides.set o ((sides.get o).reduce search o.key o.shares true).1).Match live ∧
    ((sides.get o).reduce search o.key o.shares true).2 ≠ .missingLevel := by
  obtain ⟨low, high, wf, touch, found⟩ := same.reduced search o.shares true
  refine ⟨same.set wf touch ?_ ?_, found⟩
  · exact summary_leave counted
  · exact fun locate bid key other => (restingAt_other other).symm

/-- An order gives up some of its shares. -/
theorem Match.shrink (counted : Counted ((restingAt live o.locate o.bid o.key).length + 1)) {shares : UInt32}
    (within : shares ≤ o.shares) :
    (sides.set o ((sides.get o).reduce search o.key shares false).1).Match ({ o with shares := o.shares - shares } :: live) ∧
    ((sides.get o).reduce search o.key shares false).2 ≠ .missingLevel := by
  obtain ⟨low, high, wf, touch, found⟩ := same.reduced search shares false
  refine ⟨same.set wf touch ?_ ?_, found⟩
  · have own := restingAt_own { o with shares := o.shares - shares } live
    exact (summary_shrink counted within).trans (congrArg (summary o.key) own.symm)
  · intro locate bid key other
    have mine := @restingAt_other { o with shares := o.shares - shares } live locate bid key other
    exact mine.trans (restingAt_other other).symm

end Reduce

end Sides

end Itch
