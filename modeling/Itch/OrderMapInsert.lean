import Itch.OrderMapSteps

namespace Itch

open TriangularProbe

namespace BasicOrderMap

variable {G : Group} {k : Nat} {m : BasicOrderMap}

theorem WF.size_eq (wf : m.WF G k) : m.size = m.orders.length := by
  have tags : m.ctrl = (List.range m.capacity).map m.ctrlAt := by
    refine List.ext_getElem? fun i => ?_
    by_cases inside : i < m.ctrl.length
    · have within : i < m.capacity := wf.ctrlLength ▸ inside
      simp [inside, within, ctrlAt_eq inside]
    · have beyond : ¬ i < m.capacity := wf.ctrlLength ▸ inside
      simp [inside, beyond]
  rw [wf.size, orders, List.length_filterMap_eq_countP]
  conv_lhs => rw [tags]
  rw [List.countP_map]
  refine List.countP_congr fun i _ => ?_
  simp only [Function.comp_apply, decide_eq_true_eq, live]
  split <;> simp [*]

theorem clear_spec (capacity : m.capacity = 2 ^ k * G.width) (mask : m.groupMask = 2 ^ k - 1)
    (home : ∀ ref, m.home ref < 2 ^ k) (slots : m.slots.length = m.capacity) :
    m.clear.WF G k ∧ m.clear.live = fun _ => none := by
  have empty : ∀ i, m.clear.ctrlAt i = kCtrlEmpty := fun i => by
    rw [ctrlAt, clear, List.getD_eq_getElem?_getD, List.getElem?_replicate]
    split <;> rfl
  have dead : m.clear.live = fun _ => none := by
    funext i
    exact if_neg (empty i ▸ by decide)
  refine ⟨⟨capacity, mask, home, List.length_replicate, slots, ?_, ?_, ?_, ?_, ?_, ?_⟩, dead⟩
  · intro t member
    exact .inr (.inr (List.eq_of_mem_replicate member))
  · intro i o alive
    rw [dead] at alive
    cases alive
  · intro i o alive
    rw [dead] at alive
    cases alive
  · exact (List.countP_eq_zero.mpr fun t member => by rw [List.eq_of_mem_replicate member]; decide).symm
  · exact (List.count_eq_zero.mpr fun member => absurd (List.eq_of_mem_replicate member) (by decide)).symm
  · rfl

theorem allocate_spec (m : BasicOrderMap) (G : Group) (k : Nat) :
    (m.allocate G (2 ^ k)).WF G k ∧ (m.allocate G (2 ^ k)).live = fun _ => none := by
  refine clear_spec rfl rfl ?_ List.length_replicate
  intro ref
  have word := (hash ref).toNat_lt
  change (hash ref).toNat >>> (64 - BitScan.countrZero (2 ^ k)) < 2 ^ k
  rw [BitScan.countrZero_two_pow, Nat.shiftRight_eq_div_pow, Nat.div_lt_iff_lt_mul (Nat.two_pow_pos _), ← Nat.pow_add]
  exact Nat.lt_of_lt_of_le word (Nat.pow_le_pow_right (by decide) (by omega))

theorem groupsFor_two_pow (G : Group) (n : Nat) : ∃ k, groupsFor G n = 2 ^ k := by
  rw [groupsFor]
  split
  · exact ⟨1, rfl⟩
  · exact ⟨_, rfl⟩

/-- A fresh table is well formed and empty for every expected size. -/
theorem create_spec (G : Group) (expectedOrders : Nat) :
    ∃ k, (create G expectedOrders).WF G k ∧ (create G expectedOrders).orders = [] := by
  obtain ⟨k, groups⟩ := groupsFor_two_pow G expectedOrders
  rw [create, groups]
  obtain ⟨wf, dead⟩ := allocate_spec {} G k
  exact ⟨k, wf, by rw [orders, dead]; exact SlotTable.contents_none _⟩

theorem clear_empties (wf : m.WF G k) : m.clear.WF G k ∧ m.clear.orders = [] := by
  obtain ⟨kept, dead⟩ := clear_spec wf.capacity wf.mask wf.home wf.slotsLength
  exact ⟨kept, by rw [orders, dead]; exact SlotTable.contents_none _⟩

section Contents

variable (wf : m.WF G k) {i : Nat} {o : Order} (alive : m.live i = some o)
include wf alive

theorem orders_write {o' : Order} (same : o'.ref = o.ref) {others : List Order} (before : m.orders.Perm (o :: others)) :
    (m.write i o').orders.Perm (o' :: others) := by
  have inside := wf.live_lt alive
  have take := SlotTable.contents_take inside alive
  have fill := @SlotTable.contents_update _ _ _ m.live inside (some o')
  have rest := (take.symm.trans before).cons_inv
  rw [← (write_spec wf alive same).2] at fill
  exact fill.trans (rest.cons o')

theorem orders_erase : m.orders.Perm (o :: (m.erase G i).orders) := by
  obtain ⟨_, capacity, live⟩ := erase_spec wf alive
  rw [orders, orders, capacity, live]
  exact SlotTable.contents_take (wf.live_lt alive) alive

end Contents

/-- `place_spec` in terms of the orders held. -/
theorem place_orders (wf : m.WF G k) (ref : UInt64) (budget : m.growthLeft ≠ 0) :
    ∃ m' i o, m.place G ref = some (m', i) ∧ m'.WF G k ∧ m'.live i = some o ∧ o.ref = ref ∧
      m'.orders.Perm (o :: m.orders) ∧ m'.capacity = m.capacity ∧ m'.size = m.size + 1 ∧
      (m.tombstones = 0 → m'.tombstones = 0) := by
  obtain ⟨i, placed, inside, free, kept, live⟩ := place_spec wf ref budget
  obtain ⟨capacity, -, -, size⟩ := claim_shape m ref i
  refine ⟨_, i, { m.slot i with ref := ref }, placed, kept, ?_, rfl, ?_, capacity, size, ?_⟩
  · rw [live, Function.update_self]
  · rw [orders, orders, capacity, live]
    exact SlotTable.contents_fill inside free _
  · intro clean
    rw [(claim_budget m ref i).2, clean]
    split <;> rfl

/-- A table the rehash is filling: no tombstones, and this many orders still fit. -/
structure Filling (G : Group) (k : Nat) (room : Nat) (t : BasicOrderMap) : Prop where
  wf : t.WF G k
  clean : t.tombstones = 0
  room : t.size + room ≤ maxLoad t.capacity

theorem insertWithin_of_budget (depth : Nat) (ref : UInt64) (budget : m.growthLeft ≠ 0) :
    m.insertWithin G depth ref = m.place G ref := by
  unfold insertWithin
  rw [if_neg budget]

/-- The inner insert of a rehash never has to rehash. -/
theorem Filling.step {room : Nat} {t : BasicOrderMap} (filling : t.Filling G k (room + 1)) (o : Order) :
    ∃ t', (t.insertWithin G 0 o.ref).map (fun (fresh, j) => fresh.write j o) = some t' ∧
      t'.Filling G k room ∧ t'.orders.Perm (o :: t.orders) ∧ t'.size = t.size + 1 ∧ t'.capacity = t.capacity := by
  obtain ⟨wf, clean, fits⟩ := filling
  have growth := wf.growth
  have budget : t.growthLeft ≠ 0 := by omega
  obtain ⟨t', j, o', placed, kept, alive, ref, held, capacity, size, tombstones⟩ := place_orders wf o.ref budget
  rw [insertWithin_of_budget 0 _ budget, placed]
  have written := write_spec kept alive ref.symm
  refine ⟨t'.write j o, rfl, ⟨written.1, tombstones clean, ?_⟩, orders_write kept alive ref.symm held, size, capacity⟩
  change t'.size + room ≤ maxLoad t'.capacity
  rw [size, capacity]
  omega

theorem Filling.moves (is : List Nat) {room : Nat} {t : BasicOrderMap}
    (filling : t.Filling G k (room + (is.filterMap m.live).length)) :
    ∃ t', is.foldlM (move (insertWithin G 0) m) t = some t' ∧ t'.Filling G k room ∧
      t'.orders.Perm (is.filterMap m.live ++ t.orders) ∧ t'.size = t.size + (is.filterMap m.live).length ∧
      t'.capacity = t.capacity := by
  induction is generalizing t with
  | nil => exact ⟨t, rfl, filling, List.Perm.refl _, rfl, rfl⟩
  | cons i is ih =>
    rw [List.foldlM_cons, move, List.filterMap_cons] at *
    by_cases full : m.ctrlAt i < 0x80
    · have alive : m.live i = some (m.slot i) := if_pos full
      rw [alive] at filling ⊢
      rw [if_pos full]
      obtain ⟨t₁, moved, fits, held, size, capacity⟩ := Filling.step filling (m.slot i)
      obtain ⟨t₂, rest, fits₂, held₂, size₂, capacity₂⟩ := ih fits
      refine ⟨t₂, by rw [moved]; exact rest, fits₂, ?_, ?_, capacity₂.trans capacity⟩
      · exact held₂.trans ((held.append_left _).trans List.perm_middle)
      · rw [size₂, size, List.length_cons]
        omega
    · have dead : m.live i = none := if_neg full
      rw [dead] at filling ⊢
      rw [if_neg full]
      exact ih filling

theorem Filling.mono {room room' : Nat} {t : BasicOrderMap} (filling : t.Filling G k room) (less : room' ≤ room) :
    t.Filling G k room' :=
  ⟨filling.wf, filling.clean, Nat.le_trans (Nat.add_le_add_left less _) filling.room⟩

/-- How many groups a rehash allocates. -/
def rehashGroups (G : Group) (m : BasicOrderMap) : Nat :=
  if m.size * 2 > maxLoad m.capacity then m.capacity / G.width * 2 else m.capacity / G.width

/-- The table that a rehash fills, when it is past `j` slots of the old one. -/
def rehashed (G : Group) (m : BasicOrderMap) (j : Nat) : Option BasicOrderMap :=
  (List.range j).foldlM (move (insertWithin G 0) m) (m.allocate G (m.rehashGroups G))

theorem rehashForInsert_eq : m.rehashForInsert G (insertWithin G 0) = (m.rehashed G m.capacity).map fun t => { t with
    rehashes := t.rehashes + 1, grows := if m.size * 2 > maxLoad m.capacity then t.grows + 1 else t.grows } := rfl

/-- The fresh table has room for all live orders and one more. -/
theorem fresh_filling (wf : m.WF G k) : ∃ k', m.rehashGroups G = 2 ^ k' ∧ (m.allocate G (2 ^ k')).orders = [] ∧
    (m.allocate G (2 ^ k')).Filling G k' (1 + m.size) := by
  have growth := wf.growth
  have wide := G.wide
  have groups := wf.groups
  have load : maxLoad m.capacity = m.capacity - m.capacity / 8 := rfl
  have enough : 8 ≤ m.capacity := by
    have least : 1 * G.width ≤ 2 ^ k * G.width := Nat.mul_le_mul_right _ (Nat.two_pow_pos k)
    rw [wf.capacity]
    omega
  obtain ⟨k', count, fits⟩ : ∃ k', m.rehashGroups G = 2 ^ k' ∧ m.size < maxLoad (2 ^ k' * G.width) := by
    unfold rehashGroups
    split
    · refine ⟨k + 1, by rw [groups, pow_succ], ?_⟩
      have double : 2 ^ (k + 1) * G.width = 2 * m.capacity := by rw [wf.capacity]; ring
      rw [double, maxLoad]
      omega
    · refine ⟨k, groups, ?_⟩
      rw [← wf.capacity]
      omega
  obtain ⟨fresh, dead⟩ := allocate_spec m G k'
  refine ⟨k', count, ?_, fresh, rfl, ?_⟩
  · rw [orders, dead]
    exact SlotTable.contents_none _
  · change 0 + _ ≤ maxLoad (2 ^ k' * G.width)
    omega

/-- All the way a rehash has budget left: each of its inserts finds room without another rehash. -/
theorem rehashed_spec (wf : m.WF G k) {j : Nat} (within : j ≤ m.capacity) : ∃ t k', m.rehashed G j = some t ∧
    t.Filling G k' 1 ∧ t.orders.Perm ((List.range j).filterMap m.live) := by
  obtain ⟨k', count, empty, filling⟩ := fresh_filling wf
  have before : ((List.range j).filterMap m.live).length ≤ m.size := by
    rw [wf.size_eq]
    exact ((List.range_sublist.mpr within).filterMap _).length_le
  obtain ⟨t, moved, filled, kept, -, -⟩ := (filling.mono (Nat.add_le_add_left before 1)).moves
  rw [empty, List.append_nil] at kept
  refine ⟨t, k', ?_, filled, kept⟩
  rw [rehashed, count]
  exact moved

theorem Filling.budget {room : Nat} {t : BasicOrderMap} (filling : t.Filling G k (room + 1)) : t.growthLeft ≠ 0 := by
  have growth := filling.wf.growth
  have fits := filling.room
  have clean := filling.clean
  omega

/-- A rehash keeps every order, and leaves room for the insert that asked for it. -/
theorem rehashForInsert_spec (wf : m.WF G k) :
    ∃ m' k', m.rehashForInsert G (insertWithin G 0) = some m' ∧ m'.WF G k' ∧ m'.orders.Perm m.orders ∧
      m'.growthLeft ≠ 0 := by
  obtain ⟨t, k', moved, filled, kept⟩ := rehashed_spec wf (Nat.le_refl m.capacity)
  have result : m.rehashForInsert G (insertWithin G 0) = some { t with
      rehashes := t.rehashes + 1, grows := if m.size * 2 > maxLoad m.capacity then t.grows + 1 else t.grows } := by
    rw [rehashForInsert_eq, moved]
    rfl
  exact ⟨_, k', result, { filled.wf with }, kept, filled.budget⟩

/-- `insert` rehashes when no budget is left, once, and claims a slot of the table it has then. -/
theorem insert_eq (m : BasicOrderMap) (ref : UInt64) : m.insert G ref =
    (if m.growthLeft = 0 then m.rehashForInsert G (insertWithin G 0) else some m).bind fun t => t.place G ref := by
  rw [insert]
  unfold insertWithin
  split
  · rfl
  · rfl

theorem budget_spec (wf : m.WF G k) :
    ∃ t k', (if m.growthLeft = 0 then m.rehashForInsert G (insertWithin G 0) else some m) = some t ∧ t.WF G k' ∧
      t.orders.Perm m.orders ∧ t.growthLeft ≠ 0 := by
  split
  · exact rehashForInsert_spec wf
  · rename_i budget
    exact ⟨m, k, rfl, wf, List.Perm.refl _, budget⟩

/-- `insert` succeeds in every well-formed table and adds one order of `ref`. -/
theorem insert_spec (wf : m.WF G k) (ref : UInt64) :
    ∃ m' k' i o, m.insert G ref = some (m', i) ∧ m'.WF G k' ∧ m'.live i = some o ∧ o.ref = ref ∧
      m'.orders.Perm (o :: m.orders) := by
  obtain ⟨t, k', ready, fits, kept, left⟩ := budget_spec wf
  obtain ⟨m', i, o, placed, wf', alive, same, held, -⟩ := place_orders fits ref left
  refine ⟨m', k', i, o, ?_, wf', alive, same, held.trans (kept.cons o)⟩
  rw [insert_eq, ready]
  exact placed

end BasicOrderMap

end Itch
