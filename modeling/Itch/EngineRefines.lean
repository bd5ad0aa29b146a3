import Itch.EngineCalls
import Itch.LevelKeys
import Itch.Lib.Runs
import Itch.OrderMapRefines

namespace Itch

/-- The abstract engine: a finite map of live orders, and what went wrong so far. -/
structure NaiveEngine where
  live : LiveOrders := .empty
  unknownRef : Nat := 0
  overfill : Nat := 0

namespace NaiveEngine

/-- An action on a live order. An unknown reference only counts. -/
def onLive (n : NaiveEngine) (ref : UInt64) (action : Order → NaiveEngine) : NaiveEngine :=
  match n.live.find? ref with
  | none => { n with unknownRef := n.unknownRef + 1 }
  | some o => action o

/-- Asking for more shares than an order has counts. -/
def overfilled (n : NaiveEngine) (o : Order) (shares : UInt32) : NaiveEngine :=
  if o.shares < shares then { n with overfill := n.overfill + 1 } else n

/-- Takes shares from a live order, which goes when none remain. -/
def take (n : NaiveEngine) (o : Order) (shares : UInt32) : NaiveEngine :=
  if shares = 0 then n
  else if o.shares - shares = 0 then { n with live := n.live.erase o.ref }
  else { n with live := n.live.insert { o with shares := o.shares - shares } }

def apply (n : NaiveEngine) : EngineCall → NaiveEngine
  | .add locate ref side shares price => { n with live := n.live.insert { ref, price, shares, locate, side } }
  | .reduce ref shares => n.onLive ref fun o => (n.overfilled o shares).take o (min shares o.shares)
  | .remove ref => n.onLive ref fun _ => { n with live := n.live.erase ref }
  | .replace oldRef newRef shares price => n.onLive oldRef fun o =>
      { n with live := (n.live.erase oldRef).insert { o with ref := newRef, shares, price } }

def run (n : NaiveEngine) (calls : List EngineCall) : NaiveEngine := calls.foldl apply n

/-- No reference is given twice, except that a replace may keep its own. -/
def Allows (n : NaiveEngine) : EngineCall → Prop
  | .add _ ref _ _ _ => n.live.find? ref = none
  | .reduce _ _ => True
  | .remove _ => True
  | .replace oldRef newRef _ _ => n.live.find? oldRef ≠ none → newRef ≠ oldRef → n.live.find? newRef = none

/-- A run of allowed calls with fewer than 2 ^ 32 orders live. -/
def AllowsAll : NaiveEngine → List EngineCall → Prop :=
  Runs.Every apply fun n c => n.Allows c ∧ (n.apply c).live.entries.length < 2 ^ 32

/-- A run in which no side ever has live orders at more than 2 ^ 31 prices. -/
def FitsAll : NaiveEngine → List EngineCall → Prop := Runs.Every apply fun n c => FitLevels (n.apply c).live.entries

instance (n : NaiveEngine) : (c : EngineCall) → Decidable (n.Allows c)
  | .add _ ref _ _ _ => inferInstanceAs (Decidable (n.live.find? ref = none))
  | .reduce _ _ => isTrue trivial
  | .remove _ => isTrue trivial
  | .replace oldRef newRef _ _ =>
    inferInstanceAs (Decidable (n.live.find? oldRef ≠ none → newRef ≠ oldRef → n.live.find? newRef = none))

end NaiveEngine

namespace BookEngine

variable {B : Build}

/-- The engine holds the orders of the abstract one, with its counts, and on every
side exactly the levels of these orders. -/
structure Refines (e : BookEngine B) (n : NaiveEngine) : Prop where
  find : ∀ ref, (e.orders.find ref).map (fun p => p.order) = n.live.find? ref
  forEach : e.orders.orders.Perm n.live.entries
  stats : e.stats = { unknownRef := n.unknownRef, missingLevel := 0, overfill := n.overfill }
  ascending : ∀ locate bid, (e.sides locate bid).keysHeld.Pairwise (· < ·)
  present : ∀ locate bid key,
    key ∈ (e.sides locate bid).keysHeld ↔ ∃ o ∈ n.live.entries, o.locate = locate ∧ o.bid = bid ∧ o.key = key
  totals : ∀ locate bid, ∀ l ∈ (e.sides locate bid).levels,
    l.qty.toNat = totalShares (restingAt n.live.entries locate bid l.key) ∧
      l.orders.toNat = (restingAt n.live.entries locate bid l.key).length

/-- The invariant behind `Refines`. -/
structure Tracks (e : BookEngine B) (n : NaiveEngine) : Prop where
  orders : e.orders.orders.Perm n.live.entries
  sides : e.sides.Match n.live.entries
  stats : e.stats = { unknownRef := n.unknownRef, missingLevel := 0, overfill := n.overfill }

variable {e : BookEngine B} {n : NaiveEngine}

theorem find_live (orders : e.orders.orders.Perm n.live.entries) (ref : UInt64) :
    (e.orders.find ref).map (fun p => p.order) = n.live.find? ref := by
  cases found : e.orders.find ref with
  | none =>
    refine (KeyedList.find?_eq_none.mpr fun o member => ?_).symm
    exact OrderMap.find_none _ found o (orders.mem_iff.mpr member)
  | some p =>
    refine (KeyedList.find?_eq_some.mpr ⟨?_, OrderMap.find_some _ found⟩).symm
    exact orders.mem_iff.mp (OrderMap.pointer_mem _ p)

theorem Tracks.find (tracks : e.Tracks n) (ref : UInt64) :
    (e.orders.find ref).map (fun p => p.order) = n.live.find? ref := find_live tracks.orders ref

theorem Tracks.refines (tracks : e.Tracks n) (few : n.live.entries.length < 2 ^ 32) : e.Refines n where
  find := tracks.find
  forEach := tracks.orders
  stats := tracks.stats
  ascending locate bid := (tracks.sides.wf locate bid).keysHeld_ascending
  present locate bid key := by
    rw [tracks.sides.mem_keysHeld]
    constructor
    · intro some
      obtain ⟨o, resting⟩ := List.exists_mem_of_ne_nil _ some
      exact ⟨o, by simpa [restingAt] using resting⟩
    · rintro ⟨o, member, side⟩
      exact List.ne_nil_of_mem (List.mem_filter.mpr ⟨member, by simpa using side⟩)
  totals locate bid l member := by
    have found := (tracks.sides.wf locate bid).lookup_level member
    rw [tracks.sides.levels, summary] at found
    split at found
    · cases found
    · have here := Option.some.inj found
      have less : (restingAt n.live.entries locate bid l.key).length < 2 ^ 32 :=
        Nat.lt_of_le_of_lt (List.length_filter_le ..) few
      have qty := congrArg (fun l : Level => l.qty.toNat) here
      have orders := congrArg (fun l : Level => l.orders.toNat) here
      rw [UInt64.toNat_ofNat', Nat.mod_eq_of_lt (totalShares_lt less)] at qty
      rw [UInt32.toNat_ofNat', Nat.mod_eq_of_lt less] at orders
      exact ⟨qty.symm, orders.symm⟩

end BookEngine

end Itch
