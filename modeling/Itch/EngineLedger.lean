import Itch.FullSide
import Itch.Market

namespace Itch

namespace Order

/-- The shares of the order if it rests on this side of this book. -/
def sharesAt (o : Order) (locate : UInt16) (bid : Bool) : Nat := if o.locate = locate ∧ o.bid = bid then o.shares.toNat else 0

theorem sharesAt_zero (o : Order) (locate : UInt16) (bid : Bool) : sharesAt { o with shares := 0 } locate bid = 0 := by
  rw [sharesAt]
  split <;> rfl

/-- What an order gives up and what it keeps. -/
theorem sharesAt_split (o : Order) {shares : UInt32} (le : shares ≤ o.shares) (locate : UInt16) (bid : Bool) :
    sharesAt { o with shares := o.shares - shares } locate bid + sharesAt { o with shares } locate bid =
      o.sharesAt locate bid := by
  show (if o.locate = locate ∧ o.bid = bid then (o.shares - shares).toNat else 0) +
    (if o.locate = locate ∧ o.bid = bid then shares.toNat else 0) = if o.locate = locate ∧ o.bid = bid then o.shares.toNat else 0
  split
  · rw [UInt32.toNat_sub_of_le _ _ le, Nat.sub_add_cancel (UInt32.le_iff_toNat_le.mp le)]
  · rfl

end Order

/-- The shares that rest on one side of a book. -/
def sideShares (live : List Order) (locate : UInt16) (bid : Bool) : Nat := totalShares (onSide live locate bid)

section SideShares

variable {locate : UInt16} {bid : Bool}

theorem sideShares_cons (o : Order) (live : List Order) :
    sideShares (o :: live) locate bid = o.sharesAt locate bid + sideShares live locate bid := by
  rw [sideShares, onSide, List.filter_cons, Order.sharesAt]
  by_cases here : o.locate = locate ∧ o.bid = bid
  · rw [if_pos (decide_eq_true here), if_pos here, totalShares_cons]
    rfl
  · rw [if_neg (by simpa using here), if_neg here, Nat.zero_add]
    rfl

theorem sideShares_perm {live live' : List Order} (perm : live.Perm live') :
    sideShares live locate bid = sideShares live' locate bid :=
  ((perm.filter _).map _).sum_eq

end SideShares

namespace NaiveEngine

variable (n : NaiveEngine) (locate : UInt16) (bid : Bool)

/-- The shares that a call brings to a side: those of a new order, or of one that replaces a live one. -/
def given : EngineCall → Nat
  | .add l ref side shares price => Order.sharesAt ⟨ref, price, shares, l, side⟩ locate bid
  | .reduce _ _ => 0
  | .remove _ => 0
  | .replace oldRef newRef shares price =>
    ((n.live.find? oldRef).map fun o => Order.sharesAt { o with ref := newRef, shares, price } locate bid).getD 0

/-- The shares that a call takes from a side: no more than the order it names has. -/
def taken : EngineCall → Nat
  | .add _ _ _ _ _ => 0
  | .reduce ref shares =>
    ((n.live.find? ref).map fun o => Order.sharesAt { o with shares := min shares o.shares } locate bid).getD 0
  | .remove ref => ((n.live.find? ref).map fun o => o.sharesAt locate bid).getD 0
  | .replace oldRef _ _ _ => ((n.live.find? oldRef).map fun o => o.sharesAt locate bid).getD 0

variable {n}

/-- The step: what a side had and what it is given is what it has and what is taken from it. -/
theorem apply_balance {c : EngineCall} (allowed : n.Allows c) :
    sideShares (n.apply c).live.entries locate bid + n.taken locate bid c =
      sideShares n.live.entries locate bid + n.given locate bid c := by
  have known : ∀ {ref : UInt64} {o : Order}, n.live.find? ref = some o →
      sideShares n.live.entries locate bid = o.sharesAt locate bid + sideShares (n.live.erase ref).entries locate bid :=
    fun found => (sideShares_perm (KeyedList.entries_perm found)).trans (sideShares_cons ..)
  cases c with
  | add l ref side shares price =>
    rw [apply, KeyedList.insert_entries (show n.live.find? (Order.ref ⟨ref, price, shares, l, side⟩) = none from allowed),
      sideShares_cons, taken, given]
    omega
  | remove ref =>
    rw [apply, onLive, taken, given]
    cases found : n.live.find? ref with
    | none => rfl
    | some o =>
      have split := known found
      dsimp only [Option.map_some, Option.getD_some]
      omega
  | reduce ref shares =>
    rw [apply, onLive, taken, given]
    cases found : n.live.find? ref with
    | none => rfl
    | some o =>
      have same := n.overfilled_live o shares
      have split := known found
      obtain rfl := (KeyedList.find?_eq_some.mp found).2
      dsimp only [Option.map_some, Option.getD_some]
      generalize n.overfilled o shares = m at *
      by_cases none : min shares o.shares = 0
      · rw [take, if_pos none, same, none, Order.sharesAt]
        split <;> rfl
      · have le : min shares o.shares ≤ o.shares := o.taken_eq shares ▸ o.taken_le shares
        have parts := Order.sharesAt_split o le locate bid
        rw [take, if_neg none, same]
        split <;> rename_i gone
        · rw [gone, Order.sharesAt_zero] at parts
          dsimp only
          omega
        · show sideShares ({ o with shares := o.shares - min shares o.shares } :: (n.live.erase o.ref).entries) locate bid + _ = _
          rw [sideShares_cons]
          omega
  | replace oldRef newRef shares price =>
    rw [apply, onLive, taken, given]
    cases found : n.live.find? oldRef with
    | none => rfl
    | some o =>
      have split := known found
      have fresh : (n.live.erase oldRef).find? newRef = none :=
        KeyedList.find?_erase fun other => allowed (by rw [found]; exact Option.some_ne_none _) other
      have entries := @KeyedList.insert_entries _ _ Order.ref _ (n.live.erase oldRef) { o with ref := newRef, shares, price } fresh
      dsimp only [Option.map_some, Option.getD_some]
      rw [entries, sideShares_cons]
      omega

end NaiveEngine

namespace BookEngine

variable {B : Build} {e : BookEngine B} {n : NaiveEngine}

/-- The levels of a side hold the shares of its live orders, and count them. -/
theorem Tracks.side_totals (tracks : e.Tracks n) (few : n.live.entries.length < 2 ^ 32) (locate : UInt16) (bid : Bool) :
    ((e.sides locate bid).levels.map fun l => l.qty.toNat).sum = sideShares n.live.entries locate bid ∧
      ((e.sides locate bid).levels.map fun l => l.orders.toNat).sum = (onSide n.live.entries locate bid).length := by
  have totals := (tracks.refines few).totals locate bid
  have distinct := (tracks.sides.wf locate bid).keysHeld_nodup
  have cover : ∀ o ∈ onSide n.live.entries locate bid, o.key ∈ (e.sides locate bid).keysHeld := by
    intro o member
    refine (tracks.sides.mem_keysHeld locate bid o.key).mpr (List.ne_nil_of_mem (a := o) ?_)
    rw [restingAt_eq]
    exact List.mem_filter.mpr ⟨member, decide_eq_true rfl⟩
  constructor
  · have groups := KeyedSplit.sum_groups (fun o : Order => o.shares.toNat) distinct cover
    rw [LevelSide.keysHeld, List.map_map] at groups
    refine (congrArg List.sum (List.map_congr_left fun l member => ?_)).trans groups
    rw [(totals l member).1, restingAt_eq]
    rfl
  · have groups := KeyedSplit.sum_groups (fun _ : Order => 1) distinct cover
    rw [LevelSide.keysHeld, List.map_map] at groups
    refine (congrArg List.sum (List.map_congr_left fun l member => ?_)).trans (groups.trans (by simp))
    rw [(totals l member).2, restingAt_eq]
    simp

/-- Shares are neither made nor lost: after every run of calls the levels of a side hold what
all calls gave to it but for what they took from it, and they count its live orders. -/
theorem shares_conserved (B : Build) (expectedOrders : TableSize B.group) {calls : List EngineCall}
    (allowed : NaiveEngine.AllowsAll {} calls) (fit : NaiveEngine.FitsAll {} calls) (locate : UInt16) (bid : Bool) :
    let levels := (((create B expectedOrders).run calls).sides locate bid).levels
    (levels.map fun l => l.qty.toNat).sum +
        (Runs.outputs NaiveEngine.apply (fun n c => n.taken locate bid c) {} calls).sum =
      (Runs.outputs NaiveEngine.apply (fun n c => n.given locate bid c) {} calls).sum ∧
    (levels.map fun l => l.orders.toNat).sum =
      (((create B expectedOrders).run calls).orders.orders.filter fun o => o.locate = locate ∧ o.bid = bid).length := by
  obtain ⟨tracks, few⟩ := tracks_run B expectedOrders allowed fit
  obtain ⟨shares, orders⟩ := tracks.side_totals few locate bid
  have balance : ∀ (n : NaiveEngine) (calls : List EngineCall), NaiveEngine.AllowsAll n calls →
      sideShares (n.run calls).live.entries locate bid +
          (Runs.outputs NaiveEngine.apply (fun n c => n.taken locate bid c) n calls).sum =
        sideShares n.live.entries locate bid + (Runs.outputs NaiveEngine.apply (fun n c => n.given locate bid c) n calls).sum := by
    intro n calls allowed
    induction calls generalizing n with
    | nil => rfl
    | cons c calls ih =>
      have rest := ih (n.apply c) allowed.2
      have step := NaiveEngine.apply_balance locate bid allowed.1.1
      rw [Runs.outputs, Runs.outputs, List.sum_cons, List.sum_cons]
      change sideShares ((n.apply c).run calls).live.entries locate bid + _ = _
      omega
  constructor
  · rw [shares]
    exact (balance {} calls allowed).trans (Nat.zero_add _)
  · rw [orders]
    exact (tracks.orders.filter _).length_eq.symm

theorem shares_conserved_sample :
    ((((create ⟨.avx2, 4⟩ 4).run [.add 7 1 (ascii 'B') 10 100, .add 7 2 (ascii 'B') 5 101, .reduce 1 4]).sides 7 true).levels.map
      fun l => l.qty.toNat).sum + 4 = 15 :=
  (@shares_conserved ⟨.avx2, 4⟩ ⟨4, by decide, by decide⟩ [.add 7 1 (ascii 'B') 10 100, .add 7 2 (ascii 'B') 5 101, .reduce 1 4]
    ⟨by decide, by decide, by decide, trivial⟩ ⟨by decide, by decide, by decide, trivial⟩ 7 true).1

end BookEngine

end Itch
