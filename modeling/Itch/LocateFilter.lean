import Itch.EngineMoves
import Mathlib.Data.List.Nodup

namespace Itch

namespace BookEngine

variable {B : Build} {wanted : UInt16 → Bool}

/-- `e'` is `e` without the books that are not wanted. -/
structure Restricts (wanted : UInt16 → Bool) (e e' : BookEngine B) : Prop where
  distinct : (e.orders.orders.map Order.ref).Nodup
  orders : e'.orders.orders.Perm (e.orders.orders.filter fun o => wanted o.locate)
  kept : ∀ locate bid, wanted locate = true → e'.sides locate bid = e.sides locate bid
  empty : ∀ locate bid, wanted locate = false → e'.sides locate bid = {}

variable {e e' : BookEngine B} {ref : UInt64}

theorem Restricts.find_none (restricts : e.Restricts wanted e') (missing : e.orders.find ref = none) :
    e'.orders.find ref = none := by
  cases found : e'.orders.find ref with
  | none => rfl
  | some p =>
    have member := restricts.orders.mem_iff.mp (OrderMap.pointer_mem _ p)
    exact absurd (OrderMap.find_some _ found) (OrderMap.find_none _ missing _ (List.mem_filter.mp member).1)

/-- A wanted order is found in both, with the same fields. -/
theorem Restricts.find_some (restricts : e.Restricts wanted e') {p : e.orders.Pointer} (found : e.orders.find ref = some p)
    (keep : wanted p.order.locate = true) : ∃ q, e'.orders.find ref = some q ∧ q.order = p.order := by
  have named := OrderMap.find_some _ found
  cases found' : e'.orders.find ref with
  | none =>
    have member := restricts.orders.mem_iff.mpr (List.mem_filter.mpr ⟨OrderMap.pointer_mem _ p, keep⟩)
    exact absurd named (OrderMap.find_none _ found' _ member)
  | some q =>
    have member := restricts.orders.mem_iff.mp (OrderMap.pointer_mem _ q)
    refine ⟨q, rfl, List.inj_on_of_nodup_map restricts.distinct (List.mem_filter.mp member).1 (OrderMap.pointer_mem _ p) ?_⟩
    rw [OrderMap.find_some _ found', named]

section Moves

variable {e₁ e₁' : BookEngine B} {o : Order} {t : LevelSide → LevelSide} {gone new others : List Order}
  (restricts : e.Restricts wanted e') (moves : e.Moves e₁ o t gone new) (split : e.orders.orders.Perm (gone ++ others))
  (distinct : ((new ++ others).map Order.ref).Nodup)
include restricts moves split distinct

/-- A step on a wanted book, taken in both. -/
theorem Restricts.both (moves' : e'.Moves e₁' o t gone new) (keep : wanted o.locate = true)
    (same : ∀ x ∈ gone ++ new, x.locate = o.locate) : e₁.Restricts wanted e₁' := by
  have after := moves.orders others split
  have all : ∀ l : List Order, (∀ x ∈ l, x.locate = o.locate) → l.filter (fun x => wanted x.locate) = l := by
    intro l here
    exact List.filter_eq_self.mpr fun x member => by rw [here x member, keep]
  have goneAll := all gone fun x member => same x (List.mem_append_left _ member)
  have newAll := all new fun x member => same x (List.mem_append_right _ member)
  refine ⟨(after.map _).nodup_iff.mpr distinct, ?_, ?_, ?_⟩
  · have before := restricts.orders.trans (split.filter _)
    rw [List.filter_append, goneAll] at before
    refine (moves'.orders _ before).trans ?_
    have filtered := after.filter fun x => wanted x.locate
    rw [List.filter_append, newAll] at filtered
    exact filtered.symm
  · intro locate bid yes
    rw [moves.sides, moves'.sides, Sides.set, Sides.set, Sides.get, Sides.get, restricts.kept _ _ keep,
      restricts.kept locate bid yes]
  · intro locate bid no
    rw [moves'.sides, Sides.set, if_neg, restricts.empty locate bid no]
    rintro ⟨rfl, -⟩
    rw [keep] at no
    cases no

/-- A step on a book that is not wanted, taken in `e` alone. -/
theorem Restricts.alone (drop : wanted o.locate = false) (same : ∀ x ∈ gone ++ new, x.locate = o.locate) :
    e₁.Restricts wanted e' := by
  have after := moves.orders others split
  have none : ∀ l : List Order, (∀ x ∈ l, x.locate = o.locate) → l.filter (fun x => wanted x.locate) = [] := by
    intro l here
    exact List.filter_eq_nil_iff.mpr fun x member => by rw [here x member, drop]; nofun
  have goneNone := none gone fun x member => same x (List.mem_append_left _ member)
  have newNone := none new fun x member => same x (List.mem_append_right _ member)
  refine ⟨(after.map _).nodup_iff.mpr distinct, ?_, ?_, restricts.empty⟩
  · have before := restricts.orders.trans (split.filter _)
    have filtered := after.filter fun x => wanted x.locate
    rw [List.filter_append, goneNone] at before
    rw [List.filter_append, newNone] at filtered
    exact before.trans filtered.symm
  · intro locate bid yes
    rw [moves.sides, Sides.set, if_neg, restricts.kept locate bid yes]
    rintro ⟨rfl, -⟩
    rw [drop] at yes
    cases yes

end Moves

end BookEngine

end Itch
