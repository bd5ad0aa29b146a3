import Itch.EngineEffects
import Itch.LevelSideTouch
import Mathlib.Algebra.BigOperators.Group.List.Basic

namespace Itch

/-- The orders among `live` that rest at one key of one side. -/
def restingAt (live : List Order) (locate : UInt16) (bid : Bool) (key : UInt32) : List Order :=
  live.filter fun o => o.locate = locate ∧ o.bid = bid ∧ o.key = key

def totalShares (orders : List Order) : Nat := (orders.map fun o => o.shares.toNat).sum

/-- The level that these orders make up, none if there are none. -/
def summary (key : UInt32) (orders : List Order) : Option Level :=
  if orders = [] then none else some ⟨key, UInt64.ofNat (totalShares orders), UInt32.ofNat orders.length⟩

theorem summary_eq_none {key : UInt32} {orders : List Order} : summary key orders = none ↔ orders = [] := by
  unfold summary
  split <;> simp [*]

theorem summary_perm {key : UInt32} {orders orders' : List Order} (perm : orders.Perm orders') :
    summary key orders = summary key orders' := by
  have empty : orders = [] ↔ orders' = [] := ⟨fun nil => (nil ▸ perm).nil_eq.symm, fun nil => (nil ▸ perm).eq_nil⟩
  have total : totalShares orders = totalShares orders' := (perm.map _).sum_eq
  simp only [summary, empty, total, perm.length_eq]

theorem totalShares_cons (o : Order) (orders : List Order) :
    totalShares (o :: orders) = o.shares.toNat + totalShares orders := rfl

theorem totalShares_le (orders : List Order) : totalShares orders ≤ orders.length * (2 ^ 32 - 1) := by
  induction orders with
  | nil => exact Nat.le_refl 0
  | cons o orders ih =>
    have below := o.shares.toNat_lt
    rw [totalShares_cons, List.length_cons]
    omega

/-- The shares of fewer than 2 ^ 32 orders fit 64 bits. -/
theorem totalShares_lt {orders : List Order} (few : orders.length < 2 ^ 32) : totalShares orders < 2 ^ 64 := by
  have bound := totalShares_le orders
  omega

theorem total_cons (o : Order) (orders : List Order) :
    UInt64.ofNat (totalShares (o :: orders)) = UInt64.ofNat (totalShares orders) + o.shares.toUInt64 := by
  rw [totalShares_cons, UInt64.ofNat_add, UInt64.ofNat_uInt32ToNat, UInt64.add_comm]

/-- An order more is what `add` makes of the level. -/
theorem summary_cons (key : UInt32) (o : Order) (orders : List Order) :
    summary key (o :: orders) = some (Level.join key o.shares (summary key orders)) := by
  rw [summary, if_neg (List.cons_ne_nil _ _), total_cons, List.length_cons]
  by_cases none : orders = []
  · subst none
    simp [summary, Level.join, totalShares]
  · rw [summary, if_neg none, Level.join, UInt32.ofNat_add]
    rfl

/-- Whether a 32-bit count of `k` orders is zero only if there are none. -/
def Counted (k : Nat) : Prop := k % 2 ^ 32 = 0 → k = 0

instance (k : Nat) : Decidable (Counted k) := inferInstanceAs (Decidable (k % 2 ^ 32 = 0 → k = 0))

theorem counted_of_lt {k : Nat} (few : k < 2 ^ 32) : Counted k := fun zero => (Nat.mod_eq_of_lt few).symm.trans zero

theorem count_ne_zero {k : Nat} (counted : Counted (k + 1)) : UInt32.ofNat (k + 1) ≠ 0 := by
  intro zero
  have count := congrArg UInt32.toNat zero
  rw [UInt32.toNat_ofNat'] at count
  exact absurd (counted count) (Nat.succ_ne_zero _)

section Counted

variable {key : UInt32} {o : Order} {orders : List Order}

/-- An order less is what `reduce` makes of the level when the order goes. -/
theorem summary_leave (counted : Counted orders.length) : Level.leave key o.shares true ⟨key, UInt64.ofNat (totalShares (o :: orders)),
    UInt32.ofNat (orders.length + 1)⟩ = summary key orders := by
  have rest : UInt32.ofNat (orders.length + 1) - 1 = UInt32.ofNat orders.length := by
    rw [UInt32.ofNat_add]
    exact UInt32.add_sub_cancel _ _
  rw [Level.leave, total_cons, UInt64.add_sub_cancel, if_pos rfl, rest, summary]
  cases orders with
  | nil => rfl
  | cons a orders =>
    rw [List.length_cons] at counted ⊢
    rw [if_neg (count_ne_zero counted), if_neg (List.cons_ne_nil _ _)]

/-- An order that gives up some shares but stays. -/
theorem summary_shrink (counted : Counted (orders.length + 1)) {shares : UInt32} (within : shares ≤ o.shares) :
    Level.leave key shares false ⟨key, UInt64.ofNat (totalShares (o :: orders)), UInt32.ofNat (orders.length + 1)⟩ =
      summary key ({ o with shares := o.shares - shares } :: orders) := by
  have kept : o.shares.toNat = (o.shares - shares).toNat + shares.toNat := by
    rw [UInt32.toNat_sub_of_le _ _ within, Nat.sub_add_cancel (UInt32.le_iff_toNat_le.mp within)]
  have total : UInt64.ofNat (totalShares (o :: orders)) =
      UInt64.ofNat (totalShares ({ o with shares := o.shares - shares } :: orders)) + shares.toUInt64 := by
    rw [totalShares_cons, totalShares_cons, kept, ← UInt64.ofNat_uInt32ToNat, ← UInt64.ofNat_add]
    congr 1
    simp only
    omega
  have count : UInt32.ofNat (orders.length + 1) - (if (false : Bool) then 1 else 0) = UInt32.ofNat (orders.length + 1) :=
    UInt32.sub_zero _
  rw [total]
  unfold Level.leave
  dsimp only
  rw [count, UInt64.add_sub_cancel, if_neg (count_ne_zero counted), summary, if_neg (List.cons_ne_nil _ _), List.length_cons]

end Counted

theorem summary_cons_eq (key : UInt32) (o : Order) (orders : List Order) : summary key (o :: orders) =
    some ⟨key, UInt64.ofNat (totalShares (o :: orders)), UInt32.ofNat (orders.length + 1)⟩ :=
  if_neg (List.cons_ne_nil _ _)

section RestingAt

variable {o : Order} {live : List Order} {locate : UInt16} {bid : Bool} {key : UInt32}

theorem restingAt_perm {live' : List Order} (perm : live.Perm live') :
    (restingAt live locate bid key).Perm (restingAt live' locate bid key) :=
  perm.filter _

theorem restingAt_own (o : Order) (live : List Order) :
    restingAt (o :: live) o.locate o.bid o.key = o :: restingAt live o.locate o.bid o.key :=
  List.filter_cons_of_pos (by simp)

theorem restingAt_other (other : ¬ (o.locate = locate ∧ o.bid = bid ∧ o.key = key)) :
    restingAt (o :: live) locate bid key = restingAt live locate bid key :=
  List.filter_cons_of_neg (by simpa using other)

/-- Where an order rests does not depend on its shares. -/
theorem restingAt_shares (o : Order) (shares : UInt32) (live : List Order) :
    (restingAt ({ o with shares } :: live) locate bid key).length = (restingAt (o :: live) locate bid key).length := by
  by_cases here : o.locate = locate ∧ o.bid = bid ∧ o.key = key
  · obtain ⟨rfl, rfl, rfl⟩ := here
    have own := congrArg List.length (restingAt_own { o with shares } live)
    exact own.trans (congrArg List.length (restingAt_own o live)).symm
  · have mine := @restingAt_other { o with shares } live locate bid key here
    rw [mine, restingAt_other here]

/-- Whether the live orders of every level fit its 32-bit count. -/
def FitCounts (live : List Order) : Prop := ∀ o ∈ live, (restingAt live o.locate o.bid o.key).length < 2 ^ 32

instance (live : List Order) : Decidable (FitCounts live) :=
  inferInstanceAs (Decidable (∀ o ∈ live, (restingAt live o.locate o.bid o.key).length < 2 ^ 32))

theorem fitCounts_of_length (few : live.length < 2 ^ 32) : FitCounts live := fun _ _ =>
  Nat.lt_of_le_of_lt (List.length_filter_le ..) few

theorem FitCounts.perm {live' : List Order} (few : FitCounts live) (perm : live.Perm live') : FitCounts live' := by
  intro o member
  rw [← (restingAt_perm perm).length_eq]
  exact few o (perm.mem_iff.mpr member)

theorem FitCounts.own (few : FitCounts (o :: live)) : (restingAt live o.locate o.bid o.key).length + 1 < 2 ^ 32 := by
  have count := few o List.mem_cons_self
  rwa [restingAt_own, List.length_cons] at count

end RestingAt

end Itch
