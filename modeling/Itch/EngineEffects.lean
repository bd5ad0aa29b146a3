import Itch.OrderBook

namespace Itch

namespace Order

/-- On the bid side, as every order of side 'B' is; all others are asks. -/
def bid (o : Order) : Bool := o.side = ascii 'B'

def key (o : Order) : UInt32 := OrderBook.keyFor o.side o.price

/-- What the order gives up when asked for `shares`. -/
def taken (o : Order) (shares : UInt32) : UInt32 := if o.shares < shares then o.shares else shares

end Order

/-- Both sides of every book. -/
abbrev Sides := UInt16 → Bool → LevelSide

/-- One side replaced, that of `o`. -/
def Sides.set (sides : Sides) (o : Order) (levels : LevelSide) : Sides :=
  fun locate bid => if locate = o.locate ∧ bid = o.bid then levels else sides locate bid

def Sides.get (sides : Sides) (o : Order) : LevelSide := sides o.locate o.bid

namespace BookEngine

/-- The statistics after an order asked to give up `shares`. -/
def overfilled (stats : EngineStats) (o : Order) (shares : UInt32) : EngineStats :=
  if o.shares < shares then { stats with overfill := stats.overfill + 1 } else stats

/-- The statistics after a level search with result `r`. -/
def searched (stats : EngineStats) (r : Reduce) : EngineStats :=
  if r = .missingLevel then { stats with missingLevel := stats.missingLevel + 1 } else stats

variable {B : Build} (e : BookEngine B)

def sides : Sides := fun locate bid => if bid then (e.books locate).bids else (e.books locate).asks

theorem sides_get (o : Order) : (e.books o.locate).side o.side = e.sides.get o := by
  rw [OrderBook.side, Sides.get, sides, Order.bid]
  by_cases buy : o.side = ascii 'B' <;> simp [buy]

theorem sides_setSide (o : Order) (levels : LevelSide) : (e.setSide o.locate o.side levels).sides = e.sides.set o levels := by
  funext locate bid
  rw [sides, Sides.set, setSide, OrderBook.setSide, Order.bid]
  by_cases here : locate = o.locate
  · subst here
    by_cases buy : o.side = ascii 'B' <;> cases bid <;> simp [buy, sides]
  · simp [here, sides]

/-- The effect of `add`: one more order, which joined its side. -/
theorem add_effect (o : Order) :
    (e.add o.locate o.ref o.side o.shares o.price).1.orders.orders.Perm (o :: e.orders.orders) ∧
      (e.add o.locate o.ref o.side o.shares o.price).1.sides =
        e.sides.set o ((e.sides.get o).add B.search o.key o.shares).1 ∧
      (e.add o.locate o.ref o.side o.shares o.price).1.stats = e.stats ∧
      (e.add o.locate o.ref o.side o.shares o.price).2 =
        ⟨true, o.price, o.locate, o.side, ((e.sides.get o).add B.search o.key o.shares).2⟩ := by
  obtain ⟨ref, held⟩ := e.orders.insert_orders o.ref
  rw [add, sides_get]
  refine ⟨?_, ?_, rfl, rfl⟩
  · have fields : { (e.orders.insert o.ref).2.order with
        price := o.price, shares := o.shares, locate := o.locate, side := o.side } = o := by
      dsimp only
      rw [ref]
    have written := OrderMap.write_orders (e.orders.insert o.ref).2
      (fun p => { p with price := o.price, shares := o.shares, locate := o.locate, side := o.side }) (fun _ => rfl) held
    rw [fields] at written
    exact written
  · exact sides_setSide _ o _

/-- The effect of `apply_reduce`, on the side of the order alone. -/
theorem applyReduce_effect (o : Order) (shares : UInt32) (gone : Bool) :
    (e.applyReduce o shares gone).1.orders = e.orders ∧
      (e.applyReduce o shares gone).1.sides = e.sides.set o ((e.sides.get o).reduce B.search o.key shares gone).1 ∧
      (e.applyReduce o shares gone).1.stats = searched e.stats ((e.sides.get o).reduce B.search o.key shares gone).2 ∧
      (e.applyReduce o shares gone).2 = ⟨true, o.price, o.locate, o.side,
        ((e.sides.get o).reduce B.search o.key shares gone).2 = .topChanged⟩ := by
  rw [applyReduce, sides_get]
  have side := sides_setSide e o ((e.sides.get o).reduce B.search o.key shares gone).1
  refine ⟨?_, ?_, ?_, rfl⟩
  · dsimp only
    split <;> rfl
  · dsimp only
    split <;> exact side
  · dsimp only
    split <;> rename_i missing
    · exact (if_pos missing).symm
    · exact (if_neg missing).symm

/-- The effect of taking some shares: the order keeps `left`, or goes. -/
theorem takeShares_effect (p : e.orders.Pointer) {shares left : UInt32} (some : shares ≠ 0)
    (rest : p.order.shares - shares = left) :
    (∀ others, e.orders.orders.Perm (p.order :: others) → (e.takeShares p shares).1.orders.orders.Perm
        (if left = 0 then others else { p.order with shares := left } :: others)) ∧
      (e.takeShares p shares).1.sides = e.sides.set p.order
        ((e.sides.get p.order).reduce B.search p.order.key shares (left = 0)).1 ∧
      (e.takeShares p shares).1.stats =
        searched e.stats ((e.sides.get p.order).reduce B.search p.order.key shares (left = 0)).2 ∧
      (e.takeShares p shares).2 = ⟨true, p.order.price, p.order.locate, p.order.side,
        ((e.sides.get p.order).reduce B.search p.order.key shares (left = 0)).2 = .topChanged⟩ := by
  subst rest
  have order := OrderMap.write_order p (fun o => { o with shares := p.order.shares - shares }) fun _ => rfl
  have written := fun others (before : e.orders.orders.Perm (p.order :: others)) =>
    OrderMap.write_orders p (fun o => { o with shares := p.order.shares - shares }) (fun _ => rfl) before
  have erased := OrderMap.erase_orders (p.write (fun o => { o with shares := p.order.shares - shares }) fun _ => rfl).2
  rw [takeShares, if_neg some]
  dsimp only
  rw [order] at erased ⊢
  obtain ⟨orders, sides, stats, update⟩ := applyReduce_effect
    { e with orders := (p.write (fun o => { o with shares := p.order.shares - shares }) fun _ => rfl).1 }
    { p.order with shares := p.order.shares - shares } shares (p.order.shares - shares = 0)
  -- the rest is about the result of `apply_reduce` alone
  generalize applyReduce { e with orders := (p.write (fun o => { o with shares := p.order.shares - shares }) fun _ => rfl).1 }
    { p.order with shares := p.order.shares - shares } shares (p.order.shares - shares = 0) = reduced at *
  refine ⟨?_, ?_, ?_, update⟩
  · intro others before
    split
    · exact (erased.symm.trans (written others before)).cons_inv
    · rw [orders]
      exact written others before
  · split
    · exact sides
    · exact sides
  · split
    · exact stats
    · exact stats

/-- The effect of `prepare`. -/
theorem prepare_sides (locate l : UInt16) (bid : Bool) : (e.prepare locate).sides l bid =
    if l = locate then (e.sides l bid).reserveInitial else e.sides l bid := by
  split <;> rename_i here
  · subst here
    cases bid <;> simp [prepare, sides]
  · simp [prepare, sides, here]

theorem create_sides (B : Build) (expectedOrders : Nat) (locate : UInt16) (bid : Bool) :
    (create B expectedOrders).sides locate bid = {} := by
  cases bid <;> rfl

theorem countUnknown_effect :
    e.countUnknown.orders = e.orders ∧ e.countUnknown.sides = e.sides ∧
      e.countUnknown.stats = { e.stats with unknownRef := e.stats.unknownRef + 1 } :=
  ⟨rfl, rfl, rfl⟩

section Unknown

variable {ref : UInt64} (missing : e.orders.find ref = none)
include missing

theorem reduce_unknown (shares : UInt32) : e.reduce ref shares = (e.countUnknown, {}) := by
  rw [reduce, missing]

theorem remove_unknown : e.remove ref = (e.countUnknown, {}) := by
  rw [remove, missing]

theorem replace_unknown (newRef : UInt64) (shares price : UInt32) :
    e.replace ref newRef shares price = (e.countUnknown, {}) := by
  rw [replace, missing]

end Unknown

section Known

variable {ref : UInt64} {p : e.orders.Pointer} (found : e.orders.find ref = some p)
include found

/-- `reduce` of a known order that gives up nothing. -/
theorem reduce_nothing {shares : UInt32} (none : p.order.taken shares = 0) :
    e.reduce ref shares = ({ e with stats := overfilled e.stats p.order shares },
      ⟨true, p.order.price, p.order.locate, p.order.side, false⟩) := by
  rw [reduce, found]
  dsimp only
  unfold Order.taken at none
  unfold overfilled
  split <;> rename_i exceeds
  · rw [if_pos exceeds] at none
    rw [takeShares, if_pos none]
  · rw [if_neg exceeds] at none
    rw [takeShares, if_pos none]

/-- `reduce` of a known order that gives up some of its shares. -/
theorem reduce_effect {shares left : UInt32} (some : p.order.taken shares ≠ 0)
    (rest : p.order.shares - p.order.taken shares = left) :
    (∀ others, e.orders.orders.Perm (p.order :: others) → (e.reduce ref shares).1.orders.orders.Perm
        (if left = 0 then others else { p.order with shares := left } :: others)) ∧
      (e.reduce ref shares).1.sides = e.sides.set p.order
        ((e.sides.get p.order).reduce B.search p.order.key (p.order.taken shares) (left = 0)).1 ∧
      (e.reduce ref shares).1.stats = searched (overfilled e.stats p.order shares)
        ((e.sides.get p.order).reduce B.search p.order.key (p.order.taken shares) (left = 0)).2 ∧
      (e.reduce ref shares).2 = ⟨true, p.order.price, p.order.locate, p.order.side,
        ((e.sides.get p.order).reduce B.search p.order.key (p.order.taken shares) (left = 0)).2 = .topChanged⟩ := by
  rw [reduce, found]
  dsimp only
  unfold Order.taken at some rest ⊢
  unfold overfilled
  by_cases exceeds : p.order.shares < shares
  · simp only [exceeds, if_true] at some rest ⊢
    exact takeShares_effect { e with stats.overfill := e.stats.overfill + 1 } p some rest
  · simp only [exceeds, if_false] at some rest ⊢
    exact takeShares_effect e p some rest

/-- `remove` of a known order. -/
theorem remove_effect :
    e.orders.orders.Perm (p.order :: (e.remove ref).1.orders.orders) ∧
      (e.remove ref).1.sides = e.sides.set p.order
        ((e.sides.get p.order).reduce B.search p.order.key p.order.shares true).1 ∧
      (e.remove ref).1.stats =
        searched e.stats ((e.sides.get p.order).reduce B.search p.order.key p.order.shares true).2 ∧
      (e.remove ref).2 = ⟨true, p.order.price, p.order.locate, p.order.side,
        ((e.sides.get p.order).reduce B.search p.order.key p.order.shares true).2 = .topChanged⟩ := by
  obtain ⟨_, sides, stats, update⟩ := applyReduce_effect e p.order p.order.shares true
  rw [remove, found]
  dsimp only
  generalize e.applyReduce p.order p.order.shares true = reduced at *
  exact ⟨OrderMap.erase_orders p, sides, stats, update⟩

/-- `replace` of a known order is a `remove` and an `add` on its side, the top flags joined. -/
theorem replace_eq (newRef : UInt64) (shares price : UInt32) :
    e.replace ref newRef shares price =
      let added := (e.remove ref).1.add p.order.locate newRef p.order.side shares price
      (added.1, { added.2 with topChanged := added.2.topChanged || (e.remove ref).2.topChanged }) := by
  rw [replace, remove, found]

end Known

end BookEngine

end Itch
