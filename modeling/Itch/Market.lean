import Itch.BookSession
import Itch.EngineRefines
import Itch.PublisherTop

namespace Itch

/-- The live orders on one side of a book. -/
def onSide (live : List Order) (locate : UInt16) (bid : Bool) : List Order :=
  live.filter fun o => o.locate = locate ∧ o.bid = bid

/-- What is shown of these orders, where `beats` tells the better of two prices: zeros if there
are none, otherwise a price of theirs that none beats, and all the shares at it. -/
def Quoted (beats : UInt32 → UInt32 → Prop) (orders : List Order) (price : UInt32) (qty : UInt64) : Prop :=
  (orders = [] ∧ price = 0 ∧ qty = 0) ∨
    ((∃ o ∈ orders, o.price = price) ∧ (∀ o ∈ orders, ¬ beats o.price price) ∧
      qty.toNat = totalShares (orders.filter fun o => o.price = price))

/-- The best bid is the highest one, the best ask the lowest. -/
structure Quotes (live : List Order) (locate : UInt16) (t : TopOfBook) : Prop where
  bid : Quoted (fun p q => q < p) (onSide live locate true) t.bidPrice t.bidQty
  ask : Quoted (fun p q => p < q) (onSide live locate false) t.askPrice t.askQty

/-- Some bid is at or above some ask. -/
def Meets (live : List Order) (locate : UInt16) : Prop :=
  ∃ b ∈ onSide live locate true, ∃ a ∈ onSide live locate false, a.price ≤ b.price

/-- A price that beats all others is the one shown. -/
theorem Quoted.first {beats : UInt32 → UInt32 → Prop} {o : Order} {orders : List Order} {price : UInt32} {qty : UInt64}
    (quoted : Quoted beats (o :: orders) price qty) (beaten : ∀ o' ∈ orders, beats o.price o'.price) : price = o.price := by
  rcases quoted with ⟨empty, -⟩ | ⟨⟨o', member, rfl⟩, best, -⟩
  · cases empty
  · rcases List.mem_cons.mp member with rfl | other
    · rfl
    · exact absurd (beaten o' other) (best o List.mem_cons_self)

section Keys

variable {live : List Order} {locate : UInt16} {bid : Bool} {o : Order}

theorem mem_onSide : o ∈ onSide live locate bid ↔ o ∈ live ∧ o.locate = locate ∧ o.bid = bid := by
  simp [onSide]

theorem restingAt_eq (key : UInt32) :
    restingAt live locate bid key = (onSide live locate bid).filter fun o => o.key = key := by
  simp only [restingAt, onSide, List.filter_filter]
  congr 1
  funext o
  simp only [Bool.decide_and, ← Bool.and_assoc]
  exact (Bool.and_comm ..).trans (Bool.and_assoc ..).symm

theorem Order.key_bid (bid : o.bid = true) : o.key = o.price :=
  if_pos (of_decide_eq_true bid)

theorem Order.key_ask (ask : o.bid = false) : o.key = ~~~o.price :=
  if_neg (of_decide_eq_false ask)

/-- A better ask has the higher key. -/
theorem not_le_not {p q : UInt32} : ~~~p ≤ ~~~q ↔ q ≤ p := by
  rw [UInt32.le_iff_toNat_le, UInt32.le_iff_toNat_le, UInt32.toNat_not, UInt32.toNat_not]
  have := p.toNat_lt
  have := q.toNat_lt
  simp only [UInt32.size]
  omega

end Keys

namespace Sides.Match

variable {sides : Sides} {live : List Order} (same : sides.Match live)
include same

/-- The best level of a side has the highest key of its orders and their shares. -/
theorem best (few : FitCounts live) (locate : UInt16) (bid : Bool) :
    ((sides locate bid).best = none ∧ onSide live locate bid = []) ∨
      ∃ l, (sides locate bid).best = some l ∧ (∃ o ∈ onSide live locate bid, o.key = l.key) ∧
        (∀ o ∈ onSide live locate bid, o.key ≤ l.key) ∧
        l.qty.toNat = totalShares ((onSide live locate bid).filter fun o => o.key = l.key) := by
  have wf := same.wf locate bid
  have held : ∀ o ∈ onSide live locate bid, ∃ l ∈ (sides locate bid).levels, l.key = o.key := by
    intro o member
    have resting : o ∈ restingAt live locate bid o.key := by
      rw [restingAt_eq]
      exact List.mem_filter.mpr ⟨member, decide_eq_true rfl⟩
    exact List.mem_map.mp ((same.mem_keysHeld locate bid o.key).mpr (List.ne_nil_of_mem resting))
  cases last : (sides locate bid).best with
  | none =>
    refine .inl ⟨rfl, List.eq_nil_iff_forall_not_mem.mpr fun o member => ?_⟩
    obtain ⟨l, level, -⟩ := held o member
    rw [List.getLast?_eq_none_iff.mp last] at level
    cases level
  | some l =>
    have level := List.mem_of_getLast? last
    have found := wf.lookup_level level
    rw [same.levels, summary] at found
    split at found
    · cases found
    · rename_i some
      have here := Option.some.inj found
      obtain ⟨o, resting⟩ := List.exists_mem_of_ne_nil _ some
      have filtered := @restingAt_eq live locate bid l.key
      have own := List.mem_filter.mp (filtered ▸ resting)
      refine .inr ⟨l, rfl, ⟨o, own.1, of_decide_eq_true own.2⟩, fun o' member => ?_, ?_⟩
      · obtain ⟨l', level', key⟩ := held o' member
        obtain ⟨front, split⟩ := List.getLast?_eq_some_iff.mp last
        have ascending := wf.keysHeld_ascending
        rw [LevelSide.keysHeld, split, List.map_append, List.pairwise_append] at ascending
        rw [split, List.mem_append, List.mem_singleton] at level'
        rcases level' with earlier | rfl
        · rw [← key]
          exact UInt32.le_of_lt (ascending.2.2 _ (List.mem_map_of_mem earlier) _ (by simp))
        · exact key ▸ UInt32.le_refl _
      · obtain ⟨lives, locate', bid', key'⟩ : o ∈ live ∧ o.locate = locate ∧ o.bid = bid ∧ o.key = l.key := by
          simpa [restingAt] using resting
        have less := few o lives
        rw [locate', bid', key'] at less
        have qty := congrArg (fun l : Level => l.qty.toNat) here
        rw [UInt64.toNat_ofNat', Nat.mod_eq_of_lt (totalShares_lt less)] at qty
        rw [← qty, filtered]

end Sides.Match

namespace BookEngine

variable {B : Build} {e : BookEngine B} {n : NaiveEngine}

theorem crossed_eq (b : OrderBook) :
    b.crossed = true ↔ ∃ bid ask, b.bids.best = some bid ∧ b.asks.best = some ask ∧ ~~~ask.key ≤ bid.key := by
  have back : ∀ s : LevelSide, s.size - 1 - 0 = s.size - 1 := fun _ => rfl
  rw [OrderBook.crossed, LevelSide.best_eq, LevelSide.best_eq]
  simp only [LevelSide.keyAtLevel, back]
  cases b.bids.empty <;> cases b.asks.empty <;> simp [LevelSide.level]

section Tracks

variable (tracks : e.Tracks n) (few : FitCounts n.live.entries) (locate : UInt16)
include tracks few

/-- The top of a book quotes the live orders. -/
theorem Tracks.quotes : Quotes n.live.entries locate (e.books locate).top := by
  rw [top_eq]
  constructor
  · rcases tracks.sides.best few locate true with ⟨none, empty⟩ | ⟨l, best, ⟨o, member, key⟩, highest, qty⟩
    · rw [TopOfBook.of, none]
      exact .inl ⟨empty, rfl, rfl⟩
    · have priced : ∀ o ∈ onSide n.live.entries locate true, o.key = o.price :=
        fun o member => Order.key_bid (mem_onSide.mp member).2.2
      rw [TopOfBook.of, best]
      refine .inr ⟨⟨o, member, (priced o member).symm.trans key⟩, fun o' member' => ?_, ?_⟩
      · exact UInt32.not_lt.mpr (priced o' member' ▸ highest o' member')
      · refine qty.trans (congrArg totalShares (List.filter_congr fun o' member' => ?_))
        rw [priced o' member']
        rfl
  · rcases tracks.sides.best few locate false with ⟨none, empty⟩ | ⟨l, best, ⟨o, member, key⟩, highest, qty⟩
    · rw [TopOfBook.of, none]
      exact .inl ⟨empty, rfl, rfl⟩
    · have priced : ∀ o ∈ onSide n.live.entries locate false, o.key = ~~~o.price :=
        fun o member => Order.key_ask (mem_onSide.mp member).2.2
      have back : ~~~l.key = o.price := by rw [← key, priced o member, UInt32.not_not]
      rw [TopOfBook.of, best]
      refine .inr ⟨⟨o, member, back.symm⟩, fun o' member' => ?_, ?_⟩
      · show ¬ o'.price < ~~~l.key
        rw [UInt32.not_lt, ← not_le_not, UInt32.not_not, ← priced o' member']
        exact highest o' member'
      · refine qty.trans (congrArg totalShares (List.filter_congr fun o' member' => ?_))
        show decide (o'.key = l.key) = decide (o'.price = ~~~l.key)
        rw [decide_eq_decide, priced o' member']
        constructor
        · intro same
          rw [← same, UInt32.not_not]
        · intro same
          rw [same, UInt32.not_not]

/-- A book is crossed when a bid meets an ask. -/
theorem Tracks.crossed : (e.books locate).crossed = true ↔ Meets n.live.entries locate := by
  rw [crossed_eq]
  constructor
  · rintro ⟨bid, ask, bestBid, bestAsk, crosses⟩
    rcases tracks.sides.best few locate true with ⟨none, -⟩ | ⟨l, best, ⟨b, bids, key⟩, -⟩
    · cases none.symm.trans bestBid
    · rcases tracks.sides.best few locate false with ⟨none, -⟩ | ⟨l', best', ⟨a, asks, key'⟩, -⟩
      · cases none.symm.trans bestAsk
      · obtain rfl := Option.some.inj (best.symm.trans bestBid)
        obtain rfl := Option.some.inj (best'.symm.trans bestAsk)
        refine ⟨b, bids, a, asks, ?_⟩
        rw [← key, ← key', Order.key_bid (mem_onSide.mp bids).2.2, Order.key_ask (mem_onSide.mp asks).2.2,
          UInt32.not_not] at crosses
        exact crosses
  · rintro ⟨b, bids, a, asks, meets⟩
    rcases tracks.sides.best few locate true with ⟨-, empty⟩ | ⟨l, best, -, highest, -⟩
    · rw [empty] at bids
      cases bids
    · rcases tracks.sides.best few locate false with ⟨-, empty⟩ | ⟨l', best', -, highest', -⟩
      · rw [empty] at asks
        cases asks
      · have high := highest b bids
        have low := highest' a asks
        rw [Order.key_bid (mem_onSide.mp bids).2.2] at high
        rw [Order.key_ask (mem_onSide.mp asks).2.2, ← UInt32.not_not (a := l'.key), not_le_not] at low
        exact ⟨l, l', best, best', UInt32.le_trans low (UInt32.le_trans meets high)⟩

end Tracks

end BookEngine

end Itch
