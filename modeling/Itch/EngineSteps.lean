import Itch.EngineRefines

namespace Itch

theorem Order.taken_eq (o : Order) (shares : UInt32) : o.taken shares = min shares o.shares := by
  rw [taken, UInt32.min_def]
  split <;> rename_i exceeds
  · rw [if_neg (UInt32.not_le.mpr exceeds)]
  · rw [if_pos (UInt32.not_lt.mp exceeds)]

theorem Order.taken_le (o : Order) (shares : UInt32) : o.taken shares ≤ o.shares := by
  rw [taken]
  split <;> rename_i exceeds
  · exact UInt32.le_refl _
  · exact UInt32.not_lt.mp exceeds

/-- The order that a call takes from. -/
def EngineCall.takes : EngineCall → Option UInt64
  | .add _ _ _ _ _ => none
  | .reduce ref _ => some ref
  | .remove ref => some ref
  | .replace oldRef _ _ _ => some oldRef

namespace NaiveEngine

variable (n : NaiveEngine) (o : Order) (shares : UInt32)

theorem overfilled_live : (n.overfilled o shares).live = n.live := by
  unfold overfilled
  split <;> rfl

theorem overfilled_stats : BookEngine.overfilled { unknownRef := n.unknownRef, missingLevel := 0, overfill := n.overfill } o
      shares = { unknownRef := (n.overfilled o shares).unknownRef, missingLevel := 0,
                 overfill := (n.overfilled o shares).overfill } := by
  unfold overfilled BookEngine.overfilled
  split <;> rfl

/-- The live orders once a call has taken from the one it names, before it adds another. -/
def rest (n : NaiveEngine) : EngineCall → List Order
  | .add _ _ _ _ _ => n.live.entries
  | .reduce ref shares => (n.apply (.reduce ref shares)).live.entries
  | .remove ref => (n.live.erase ref).entries
  | .replace oldRef _ _ _ => (n.live.erase oldRef).entries

/-- Whether the 32-bit count of the level that a call takes from tells the orders it leaves
there from none. -/
def Counts (n : NaiveEngine) (c : EngineCall) : Prop :=
  ∀ o ∈ c.takes.bind n.live.find?, Counted (restingAt (n.rest c) o.locate o.bid o.key).length

instance (n : NaiveEngine) (c : EngineCall) : Decidable (n.Counts c) :=
  inferInstanceAs (Decidable (∀ o ∈ c.takes.bind n.live.find?, Counted (restingAt (n.rest c) o.locate o.bid o.key).length))

/-- What a call takes from leaves no more orders at any level. -/
theorem rest_le {c : EngineCall} {o : Order} (taken : o ∈ c.takes.bind n.live.find?) (locate : UInt16) (bid : Bool)
    (key : UInt32) : (restingAt (n.rest c) locate bid key).length ≤ (restingAt n.live.entries locate bid key).length := by
  have erased : ∀ ref, (restingAt (n.live.erase ref).entries locate bid key).length ≤
      (restingAt n.live.entries locate bid key).length := fun ref =>
    (List.Sublist.filter _ List.filter_sublist).length_le
  cases c with
  | add locate ref side shares price => cases taken
  | reduce ref shares =>
    have live : n.live.find? ref = some o := taken
    rw [rest, apply, onLive, live]
    dsimp only
    have same := n.overfilled_live o shares
    generalize n.overfilled o shares = m at *
    rw [take]
    split
    · rw [same]
    · split
      · exact same ▸ erased o.ref
      · obtain ⟨-, rfl⟩ := KeyedList.find?_eq_some.mp live
        have split := @restingAt_perm _ locate bid key _ (KeyedList.entries_perm live)
        rw [split.length_eq, ← restingAt_shares o (o.shares - min shares o.shares), ← same]
        exact Nat.le_refl _
  | remove ref => exact erased ref
  | replace oldRef newRef shares price => exact erased oldRef

/-- Fewer than 2 ^ 32 orders at each level are always counted. -/
theorem counts_of_fit (few : FitCounts n.live.entries) (c : EngineCall) : n.Counts c := by
  intro o taken
  obtain ⟨ref, -, live⟩ := Option.mem_bind_iff.mp taken
  have member := (KeyedList.find?_eq_some.mp live).1
  exact counted_of_lt (Nat.lt_of_le_of_lt (n.rest_le taken _ _ _) (few o member))

end NaiveEngine

namespace BookEngine

variable {B : Build} {e : BookEngine B} {n : NaiveEngine}

theorem Tracks.known (tracks : e.Tracks n) (ref : UInt64) :
    (e.orders.find ref = none ∧ n.live.find? ref = none) ∨ ∃ p, e.orders.find ref = some p ∧
      n.live.find? ref = some p.order ∧ n.live.entries.Perm (p.order :: (n.live.erase ref).entries) := by
  have same := tracks.find ref
  cases found : e.orders.find ref with
  | none =>
    rw [found] at same
    exact .inl ⟨rfl, same.symm⟩
  | some p =>
    rw [found] at same
    exact .inr ⟨p, rfl, same.symm, KeyedList.entries_perm same.symm⟩

/-- An unknown reference changes nothing but its counter. -/
theorem Tracks.unknown (tracks : e.Tracks n) : e.countUnknown.Tracks { n with unknownRef := n.unknownRef + 1 } where
  orders := tracks.orders
  sides := tracks.sides
  stats := by
    rw [(countUnknown_effect e).2.2, tracks.stats]

theorem Tracks.add (tracks : e.Tracks n) {o : Order} (fresh : n.live.find? o.ref = none)
    (fit : FitLevels (n.live.insert o).entries) :
    (e.add o.locate o.ref o.side o.shares o.price).1.Tracks { n with live := n.live.insert o } := by
  obtain ⟨orders, sides, stats, -⟩ := add_effect e o
  have entries := KeyedList.insert_entries fresh
  rw [entries] at fit
  refine ⟨?_, ?_, stats.trans tracks.stats⟩
  · exact entries ▸ orders.trans (tracks.orders.cons o)
  · change _ = _ at sides
    rw [sides, entries]
    exact tracks.sides.add B.search o (tracks.sides.room fit)

section Known

variable {ref : UInt64} {p : e.orders.Pointer} (tracks : e.Tracks n) (found : e.orders.find ref = some p)
  (split : n.live.entries.Perm (p.order :: (n.live.erase ref).entries))
include tracks found split

theorem Tracks.removed (counted : Counted (restingAt (n.live.erase ref).entries p.order.locate p.order.bid p.order.key).length) :
    (e.remove ref).1.Tracks { n with live := n.live.erase ref } := by
  obtain ⟨orders, sides, stats, -⟩ := remove_effect e found
  obtain ⟨same, present⟩ := (tracks.sides.perm split).drop B.search counted
  refine ⟨(orders.symm.trans (tracks.orders.trans split)).cons_inv, sides ▸ same, ?_⟩
  rw [stats, searched, if_neg present, tracks.stats]

theorem Tracks.reduced {shares : UInt32}
    (counted : Counted (restingAt ((n.overfilled p.order shares).take p.order (p.order.taken shares)).live.entries
      p.order.locate p.order.bid p.order.key).length) :
    (e.reduce ref shares).1.Tracks ((n.overfilled p.order shares).take p.order (p.order.taken shares)) := by
  have overfill := n.overfilled_stats p.order shares
  have live := n.overfilled_live p.order shares
  rw [← tracks.stats] at overfill
  generalize n.overfilled p.order shares = m at *
  by_cases none : p.order.taken shares = 0
  · rw [reduce_nothing e found none, NaiveEngine.take, if_pos none]
    exact ⟨live ▸ tracks.orders, live ▸ tracks.sides, overfill⟩
  · obtain ⟨orders, sides, stats, -⟩ := reduce_effect e found none rfl
    have after := orders _ (tracks.orders.trans split)
    obtain rfl := OrderMap.find_some _ found
    have before := tracks.sides.perm split
    rw [NaiveEngine.take, if_neg none, live] at counted ⊢
    by_cases gone : p.order.shares - p.order.taken shares = 0
    · have all : p.order.taken shares = p.order.shares :=
        ((UInt32.sub_eq_iff_eq_add.mp gone).trans (UInt32.zero_add _)).symm
      rw [if_pos gone] at after counted ⊢
      rw [decide_eq_true gone, all] at sides stats
      obtain ⟨rest, present⟩ := before.drop B.search counted
      refine ⟨after, sides ▸ rest, ?_⟩
      rw [stats, searched, if_neg present, overfill]
    · rw [if_neg gone] at after counted ⊢
      rw [decide_eq_false gone] at sides stats
      have own := restingAt_own { p.order with shares := p.order.shares - p.order.taken shares }
        (n.live.erase p.order.ref).entries
      obtain ⟨rest, present⟩ := before.shrink B.search (List.length_cons ▸ own ▸ counted) (p.order.taken_le shares)
      refine ⟨after, sides ▸ rest, ?_⟩
      rw [stats, searched, if_neg present, overfill]

theorem Tracks.replaced
    (counted : Counted (restingAt (n.live.erase ref).entries p.order.locate p.order.bid p.order.key).length)
    {newRef : UInt64} {shares price : UInt32} (fresh : (n.live.erase ref).find? newRef = none)
    (fit : FitLevels ((n.live.erase ref).insert { p.order with ref := newRef, shares, price }).entries) :
    (e.replace ref newRef shares price).1.Tracks
      { n with live := (n.live.erase ref).insert { p.order with ref := newRef, shares, price } } := by
  rw [replace_eq e found]
  exact @Tracks.add _ _ _ (tracks.removed found split counted) { p.order with ref := newRef, shares, price } fresh fit

end Known

theorem Tracks.call_counted (tracks : e.Tracks n) {c : EngineCall} (counts : n.Counts c) (allowed : n.Allows c)
    (fit : FitLevels (n.apply c).live.entries) : (e.call c).1.Tracks (n.apply c) := by
  cases c with
  | add locate ref side shares price => exact @Tracks.add _ _ _ tracks ⟨ref, price, shares, locate, side⟩ allowed fit
  | reduce ref shares =>
    rw [NaiveEngine.Counts, NaiveEngine.rest, NaiveEngine.apply, NaiveEngine.onLive] at counts
    rw [BookEngine.call, NaiveEngine.apply, NaiveEngine.onLive]
    rcases tracks.known ref with ⟨missing, absent⟩ | ⟨p, found, live, split⟩
    · rw [absent, reduce_unknown e missing]
      exact tracks.unknown
    · have counted := counts p.order live
      rw [live] at counted ⊢
      dsimp only at counted ⊢
      rw [← Order.taken_eq] at counted ⊢
      exact tracks.reduced found split counted
  | remove ref =>
    rw [BookEngine.call, NaiveEngine.apply, NaiveEngine.onLive]
    rcases tracks.known ref with ⟨missing, absent⟩ | ⟨p, found, live, split⟩
    · rw [absent, remove_unknown e missing]
      exact tracks.unknown
    · rw [live]
      exact tracks.removed found split (counts p.order live)
  | replace oldRef newRef shares price =>
    rw [NaiveEngine.apply, NaiveEngine.onLive] at fit ⊢
    rw [BookEngine.call]
    rcases tracks.known oldRef with ⟨missing, absent⟩ | ⟨p, found, live, split⟩
    · rw [absent, replace_unknown e missing]
      exact tracks.unknown
    · have counted := counts p.order live
      rw [live] at fit ⊢
      have fresh := KeyedList.find?_erase fun other => allowed (live ▸ Option.some_ne_none p.order) other
      exact tracks.replaced found split counted fresh fit

/-- The same where every level has fewer than 2 ^ 32 orders. -/
theorem Tracks.call (tracks : e.Tracks n) (few : FitCounts n.live.entries) {c : EngineCall} (allowed : n.Allows c)
    (fit : FitLevels (n.apply c).live.entries) : (e.call c).1.Tracks (n.apply c) :=
  tracks.call_counted (n.counts_of_fit few c) allowed fit

theorem create_tracks (B : Build) (expectedOrders : Nat) : (create B expectedOrders).Tracks {} where
  orders := by
    rw [create, OrderMap.create_orders]
    exact List.Perm.refl _
  sides := ⟨fun locate bid => by cases bid <;> exact LevelSide.empty_wf, fun locate bid key => by cases bid <;> rfl⟩
  stats := rfl

end BookEngine

end Itch
