import Itch.EngineCalls
import Itch.EngineEffects

namespace Itch

namespace BookEngine

variable {B : Build}

/-- A step that takes the orders `gone` off the map and puts `new` on it, and changes
the side of `o` by `t`. -/
structure Moves (e e₁ : BookEngine B) (o : Order) (t : LevelSide → LevelSide) (gone new : List Order) : Prop where
  orders : ∀ others, e.orders.orders.Perm (gone ++ others) → e₁.orders.orders.Perm (new ++ others)
  sides : e₁.sides = e.sides.set o (t (e.sides.get o))

/-- What `add` does to the side of its order. -/
def joins (B : Build) (o : Order) (s : LevelSide) : LevelSide := (s.add B.search o.key o.shares).1

/-- What taking `shares` does to the side of an order. -/
def leaves (B : Build) (o : Order) (shares : UInt32) (gone : Bool) (s : LevelSide) : LevelSide :=
  (s.reduce B.search o.key shares gone).1

variable {e : BookEngine B} {ref : UInt64} {p : e.orders.Pointer}

theorem add_moves (o : Order) : e.Moves (e.add o.locate o.ref o.side o.shares o.price).1 o (joins B o) [] [o] := by
  obtain ⟨orders, sides, -, -⟩ := add_effect e o
  exact ⟨fun others before => orders.trans (before.cons o), sides⟩

theorem remove_moves (found : e.orders.find ref = some p) :
    e.Moves (e.remove ref).1 p.order (leaves B p.order p.order.shares true) [p.order] [] := by
  obtain ⟨orders, sides, -, -⟩ := remove_effect e found
  exact ⟨fun others before => (orders.symm.trans before).cons_inv, sides⟩

/-- The order that a `reduce` leaves, if any. -/
def remainder (o : Order) (left : UInt32) : List Order := if left = 0 then [] else [{ o with shares := left }]

theorem reduce_moves (found : e.orders.find ref = some p) {shares left : UInt32} (some : p.order.taken shares ≠ 0)
    (rest : p.order.shares - p.order.taken shares = left) :
    e.Moves (e.reduce ref shares).1 p.order (leaves B p.order (p.order.taken shares) (left = 0)) [p.order]
      (remainder p.order left) := by
  obtain ⟨orders, sides, -, -⟩ := reduce_effect e found some rest
  refine ⟨fun others before => (orders others before).trans (List.Perm.of_eq ?_), sides⟩
  unfold remainder
  split <;> rfl

theorem split_at (p : e.orders.Pointer) : ∃ others, e.orders.orders.Perm ([p.order] ++ others) :=
  ⟨_, List.perm_cons_erase (OrderMap.pointer_mem _ p)⟩

end BookEngine

end Itch
