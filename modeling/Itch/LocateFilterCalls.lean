import Itch.LocateFilter

namespace Itch

namespace BookEngine

variable {B : Build} {wanted : UInt16 → Bool} {e e' e₁' : BookEngine B} {ref : UInt64}

/-- What a session keeps to: a call for a live order comes under the locate of that
order, and what is added is not live. -/
def Names (e : BookEngine B) (locate : UInt16) : EngineCall → Prop
  | .add at' ref _ _ _ => at' = locate ∧ e.orders.find ref = none
  | .reduce ref _ => ∀ p, e.orders.find ref = some p → p.order.locate = locate
  | .remove ref => ∀ p, e.orders.find ref = some p → p.order.locate = locate
  | .replace oldRef newRef _ _ => ∀ p, e.orders.find oldRef = some p →
      p.order.locate = locate ∧ (newRef ≠ oldRef → e.orders.find newRef = none)

/-- Only the orders and the sides matter. -/
theorem Restricts.of_same {e₁ : BookEngine B} (restricts : e.Restricts wanted e') (orders : e₁.orders = e.orders)
    (sides : e₁.sides = e.sides) (orders' : e₁'.orders = e'.orders) (sides' : e₁'.sides = e'.sides) :
    e₁.Restricts wanted e₁' := by
  refine ⟨?_, ?_, ?_, ?_⟩
  · rw [orders]
    exact restricts.distinct
  · rw [orders, orders']
    exact restricts.orders
  · rw [sides, sides']
    exact restricts.kept
  · rw [sides']
    exact restricts.empty

theorem Restricts.split_at (restricts : e.Restricts wanted e') (p : e.orders.Pointer) :
    ∃ others, e.orders.orders.Perm ([p.order] ++ others) ∧ (p.order.ref :: others.map Order.ref).Nodup := by
  obtain ⟨others, split⟩ := BookEngine.split_at p
  exact ⟨others, split, (split.map _).nodup_iff.mp restricts.distinct⟩

/-- Adding a new order, in both if its book is wanted. -/
theorem Restricts.add (restricts : e.Restricts wanted e') {o : Order} (fresh : ∀ x ∈ e.orders.orders, x.ref ≠ o.ref)
    (follow : wanted o.locate = true → e₁' = (e'.add o.locate o.ref o.side o.shares o.price).1)
    (still : wanted o.locate = false → e₁' = e') :
    (e.add o.locate o.ref o.side o.shares o.price).1.Restricts wanted e₁' := by
  have distinct : (([o] ++ e.orders.orders).map Order.ref).Nodup := by
    refine List.nodup_cons.mpr ⟨fun member => ?_, restricts.distinct⟩
    obtain ⟨x, held, same⟩ := List.mem_map.mp member
    exact fresh x held same
  have here : ∀ x ∈ [] ++ [o], x.locate = o.locate := fun x member => by rw [List.mem_singleton.mp member]
  cases keep : wanted o.locate with
  | true =>
    rw [follow keep]
    exact restricts.both (add_moves o) (List.Perm.refl _) distinct (add_moves o) keep here
  | false =>
    rw [still keep]
    exact restricts.alone (add_moves o) (List.Perm.refl _) distinct keep here

section Known

variable (restricts : e.Restricts wanted e') {p : e.orders.Pointer} (found : e.orders.find ref = some p)
include restricts found

/-- Removing an order, in both if its book is wanted. -/
theorem Restricts.remove (follow : wanted p.order.locate = true → e₁' = (e'.remove ref).1)
    (still : wanted p.order.locate = false → e₁' = e') : (e.remove ref).1.Restricts wanted e₁' := by
  obtain ⟨others, split, distinct⟩ := restricts.split_at p
  have here : ∀ x ∈ [p.order] ++ [], x.locate = p.order.locate := fun x member => by rw [List.mem_singleton.mp member]
  cases keep : wanted p.order.locate with
  | true =>
    obtain ⟨q, found', same⟩ := restricts.find_some found keep
    have moves := remove_moves found'
    rw [same] at moves
    rw [follow keep]
    exact restricts.both (remove_moves found) split distinct.of_cons moves keep here
  | false =>
    rw [still keep]
    exact restricts.alone (remove_moves found) split distinct.of_cons keep here

/-- Reducing an order, in both if its book is wanted. -/
theorem Restricts.reduce {shares : UInt32} (follow : wanted p.order.locate = true → e₁' = (e'.reduce ref shares).1)
    (still : wanted p.order.locate = false → e₁' = e') : (e.reduce ref shares).1.Restricts wanted e₁' := by
  by_cases none : p.order.taken shares = 0
  · rw [reduce_nothing e found none]
    cases keep : wanted p.order.locate with
    | true =>
      obtain ⟨q, found', same⟩ := restricts.find_some found keep
      rw [follow keep, reduce_nothing e' found' (same ▸ none)]
      exact restricts.of_same rfl rfl rfl rfl
    | false =>
      rw [still keep]
      exact restricts.of_same rfl rfl rfl rfl
  · obtain ⟨others, split, distinct⟩ := restricts.split_at p
    have moves := reduce_moves found none rfl
    have here : ∀ x ∈ [p.order] ++ remainder p.order (p.order.shares - p.order.taken shares), x.locate = p.order.locate := by
      unfold remainder
      split <;> simp
    have left : ((remainder p.order (p.order.shares - p.order.taken shares) ++ others).map Order.ref).Nodup := by
      unfold remainder
      split
      · exact distinct.of_cons
      · exact distinct
    cases keep : wanted p.order.locate with
    | true =>
      obtain ⟨q, found', same⟩ := restricts.find_some found keep
      have moves' := @reduce_moves _ _ _ _ found' shares _ (same ▸ none) rfl
      rw [same] at moves'
      rw [follow keep]
      exact restricts.both moves split left moves' keep here
    | false =>
      rw [still keep]
      exact restricts.alone moves split left keep here

/-- Replacing an order, in both if its book is wanted. -/
theorem Restricts.replace {newRef : UInt64} {shares price : UInt32} (fresh : newRef ≠ ref → e.orders.find newRef = none)
    (follow : wanted p.order.locate = true → e₁' = (e'.replace ref newRef shares price).1)
    (still : wanted p.order.locate = false → e₁' = e') : (e.replace ref newRef shares price).1.Restricts wanted e₁' := by
  obtain ⟨others, split, distinct⟩ := restricts.split_at p
  have rest := (remove_moves found).orders others split
  have unused : ∀ x ∈ (e.remove ref).1.orders.orders, x.ref ≠ newRef := by
    intro x member
    have held := rest.mem_iff.mp member
    by_cases same : newRef = ref
    · rintro rfl
      refine (List.nodup_cons.mp distinct).1 (List.mem_map.mpr ⟨x, held, ?_⟩)
      rw [OrderMap.find_some _ found, same]
    · exact OrderMap.find_none _ (fresh same) x (split.mem_iff.mpr (List.mem_append_right _ held))
  rw [replace_eq e found]
  cases keep : wanted p.order.locate with
  | true =>
    obtain ⟨q, found', same⟩ := restricts.find_some found keep
    have removed := @Restricts.remove _ _ _ _ (e'.remove ref).1 _ restricts p found (fun _ => rfl) fun drop => by
      rw [keep] at drop
      cases drop
    refine @Restricts.add _ _ _ _ _ removed { p.order with ref := newRef, shares, price } unused (fun _ => ?_) fun drop => ?_
    · rw [follow keep, replace_eq e' found', same]
    · exact absurd (keep.symm.trans drop) nofun
  | false =>
    have removed := @Restricts.remove _ _ _ _ e' _ restricts p found (fun yes => by rw [keep] at yes; cases yes) fun _ => rfl
    refine @Restricts.add _ _ _ _ _ removed { p.order with ref := newRef, shares, price } unused (fun yes => ?_) fun _ => ?_
    · exact absurd (keep.symm.trans yes) nofun
    · exact still keep

end Known

/-- An unknown order only counts, in one engine or in both. -/
theorem Restricts.unknown (restricts : e.Restricts wanted e') (both : e₁' = e'.countUnknown ∨ e₁' = e') :
    e.countUnknown.Restricts wanted e₁' := by
  rcases both with rfl | rfl
  · exact restricts.of_same rfl rfl rfl rfl
  · exact restricts.of_same rfl rfl rfl rfl

/-- A call under a locate, which the filtered engine gets if the locate is wanted. -/
theorem Restricts.call (restricts : e.Restricts wanted e') {locate : UInt16} {c : EngineCall} (names : e.Names locate c) :
    (e.call c).1.Restricts wanted (if wanted locate then (e'.call c).1 else e') := by
  have either : ∀ f : BookEngine B, (if wanted locate then f else e') = f ∨ (if wanted locate then f else e') = e' := by
    intro f
    split
    · exact .inl rfl
    · exact .inr rfl
  cases c with
  | add at' ref side shares price =>
    obtain ⟨rfl, missing⟩ := names
    exact @Restricts.add _ _ _ _ _ restricts ⟨ref, price, shares, at', side⟩ (OrderMap.find_none _ missing)
      (fun keep => if_pos keep) fun drop => if_neg (by simp [drop])
  | reduce ref shares =>
    cases found : e.orders.find ref with
    | none =>
      rw [BookEngine.call, reduce_unknown e found, BookEngine.call, reduce_unknown e' (restricts.find_none found)]
      exact restricts.unknown (either _)
    | some p =>
      obtain rfl := names p found
      exact restricts.reduce found (fun keep => if_pos keep) fun drop => if_neg (by simp [drop])
  | remove ref =>
    cases found : e.orders.find ref with
    | none =>
      rw [BookEngine.call, remove_unknown e found, BookEngine.call, remove_unknown e' (restricts.find_none found)]
      exact restricts.unknown (either _)
    | some p =>
      obtain rfl := names p found
      exact restricts.remove found (fun keep => if_pos keep) fun drop => if_neg (by simp [drop])
  | replace oldRef newRef shares price =>
    cases found : e.orders.find oldRef with
    | none =>
      rw [BookEngine.call, replace_unknown e found, BookEngine.call, replace_unknown e' (restricts.find_none found)]
      exact restricts.unknown (either _)
    | some p =>
      obtain ⟨rfl, fresh⟩ := names p found
      exact restricts.replace found fresh (fun keep => if_pos keep) fun drop => if_neg (by simp [drop])

/-- Preparing a locate, in both if it is wanted. -/
theorem Restricts.prepare (restricts : e.Restricts wanted e') (locate : UInt16) :
    (e.prepare locate).Restricts wanted (if wanted locate then e'.prepare locate else e') := by
  split <;> rename_i keep
  · refine ⟨restricts.distinct, restricts.orders, fun l bid yes => ?_, fun l bid no => ?_⟩
    · rw [prepare_sides, prepare_sides, restricts.kept l bid yes]
    · rw [prepare_sides, if_neg, restricts.empty l bid no]
      rintro rfl
      rw [keep] at no
      cases no
  · refine ⟨restricts.distinct, restricts.orders, fun l bid yes => ?_, restricts.empty⟩
    rw [prepare_sides, if_neg, restricts.kept l bid yes]
    rintro rfl
    exact keep yes

theorem create_restricts (B : Build) (expectedOrders : Nat) :
    (create B expectedOrders).Restricts wanted (create B expectedOrders) := by
  have none : (create B expectedOrders).orders.orders = [] := OrderMap.create_orders expectedOrders
  refine ⟨?_, ?_, fun _ _ _ => rfl, fun locate bid _ => create_sides B expectedOrders locate bid⟩
  · rw [none]
    exact List.nodup_nil
  · rw [none]
    exact List.Perm.refl _

/-- The map of the filtered engine finds the wanted orders. -/
theorem Restricts.find (restricts : e.Restricts wanted e') (ref : UInt64) : (e'.orders.find ref).map (fun p => p.order) =
    ((e.orders.find ref).map fun p => p.order).filter fun o => wanted o.locate := by
  cases found : e.orders.find ref with
  | none =>
    rw [restricts.find_none found]
    rfl
  | some p =>
    cases keep : wanted p.order.locate with
    | true =>
      obtain ⟨q, found', same⟩ := restricts.find_some found keep
      rw [found', Option.map_some, Option.map_some, same, Option.filter_some, if_pos keep]
    | false =>
      rw [Option.map_some, Option.filter_some, if_neg (by simp [keep])]
      cases found' : e'.orders.find ref with
      | none => rfl
      | some q =>
        have member := restricts.orders.mem_iff.mp (OrderMap.pointer_mem _ q)
        obtain ⟨held, yes⟩ := List.mem_filter.mp member
        have named : q.order.ref = p.order.ref := (OrderMap.find_some _ found').trans (OrderMap.find_some _ found).symm
        have same := List.inj_on_of_nodup_map restricts.distinct held (OrderMap.pointer_mem _ p) named
        rw [same, keep] at yes
        cases yes

end BookEngine

end Itch
