import Itch.Lib.Reachable
import Itch.OrderMapRefines
import Itch.OrderMapWords

namespace Itch

/-- What changes a table: `insert`, its caller filling in the slot, `erase` and `clear`. -/
inductive TableCall where
  | insert (ref : UInt64)
  | fill (i : Nat) (o : Order)
  | erase (i : Nat)
  | clear

namespace BasicOrderMap

/-- The steps of a caller that inserts absent references, and fills in and erases live slots. -/
def Steps (G : Group) (m : BasicOrderMap) : TableCall → BasicOrderMap → Prop
  | .insert ref, m' => (∀ o ∈ m.orders, o.ref ≠ ref) ∧ ∃ i, m.insert64 G ref = some (m', i)
  | .fill i o, m' => (∃ o', m.live i = some o' ∧ o.ref = o'.ref) ∧ m' = m.write i o
  | .erase i, m' => m.ctrlAt i < 0x80 ∧ m' = m.erase G i
  | .clear, m' => m' = m.clear

/-- The steps that allocate no table of 2 ^ 64 slots. -/
def FitSteps (G : Group) (m : BasicOrderMap) (c : TableCall) (m' : BasicOrderMap) : Prop :=
  m.Steps G c m' ∧ ∀ ref, c = .insert ref → m.Fits G

variable {G : Group} {k : Nat} {m m' : BasicOrderMap}

theorem FitSteps.wf {c : TableCall} (taken : m.FitSteps G c m') (before : ∃ k, m.WF G k) : ∃ k, m'.WF G k := by
  obtain ⟨k, wf⟩ := before
  obtain ⟨steps, fits⟩ := taken
  cases c with
  | insert ref =>
    obtain ⟨-, i, inserted⟩ := steps
    obtain ⟨t, k', j, o, result, kept, -⟩ := insert_spec wf ref
    rw [(fits ref rfl).insert64_eq, result] at inserted
    obtain ⟨rfl, rfl⟩ := Prod.mk.inj (Option.some.inj inserted)
    exact ⟨k', kept⟩
  | fill i o =>
    obtain ⟨⟨o', alive, same⟩, rfl⟩ := steps
    exact ⟨k, (write_spec wf alive same).1⟩
  | erase i =>
    obtain ⟨full, rfl⟩ := steps
    exact ⟨k, (erase_spec wf (if_pos full)).1⟩
  | clear =>
    obtain rfl := steps
    exact ⟨k, (clear_empties wf).1⟩

theorem create64_eq {expectedOrders : Nat} (fits : groupsFor G expectedOrders * G.width < 2 ^ 64) :
    create64 G expectedOrders = create G expectedOrders :=
  allocate64_eq fits

theorem reachable_wf {expectedOrders : Nat} (fits : groupsFor G expectedOrders * G.width < 2 ^ 64)
    (reach : Reachable (create64 G expectedOrders) (FitSteps G) m) : ∃ k, m.WF G k := by
  refine reach.invariant (fun m => ∃ k, m.WF G k) ?_ fun m c m' before taken => FitSteps.wf taken before
  obtain ⟨k, wf, -⟩ := create_spec G expectedOrders
  exact ⟨k, (create64_eq fits).symm ▸ wf⟩

/-- All the way through a rehash there is budget left, so that its inserts do not rehash. -/
theorem rehashed_ends (wf : m.WF G k) (fits : m.Fits G) (spent : m.growthLeft = 0) {j : Nat} (within : j ≤ m.capacity) :
    ∃ t, m.rehashed64 G j = some t ∧ t.Ends G ∧ t.growthLeft ≠ 0 := by
  obtain ⟨t, k', moved, filling, -⟩ := rehashed_spec wf within
  exact ⟨t, (rehashed64_eq (fits spent) j).trans moved, filling.wf.ends, filling.budget⟩

/-- An insert claims, after one rehash at most, a slot whose counter can go down. -/
theorem insert_ends (wf : m.WF G k) (fits : m.Fits G) (ref : UInt64) : ∃ t n i, m.budgeted64 G = some t ∧ t.Ends G ∧
    t.growthLeft ≠ 0 ∧ n ≤ t.capacity / G.width ∧ t.FreeLoop G (t.groupIndex (hash ref)) 1 n i ∧
    (t.ctrlAt i = kCtrlEmpty ∨ t.ctrlAt i = kCtrlDeleted ∧ 0 < t.tombstones) ∧
    m.insert64 G ref = some (t.claim ref i, i) := by
  obtain ⟨t, k', ready, kept, -, budget⟩ := budget_spec wf
  rw [← fits.budgeted64_eq] at ready
  obtain ⟨n, i, bound, loop, placed, slot⟩ := kept.place_loop ref
  refine ⟨t, n, i, ready, kept.ends, budget, bound, loop, slot, ?_⟩
  rw [insert64, ready]
  exact placed

/-- Every loop on a table that callers can reach ends, the loops of an insert and of the
rehash that it may make among them, as long as no table of 2 ^ 64 slots is allocated. -/
theorem reachable_ends (type : GroupType) (expectedOrders : Nat)
    (fits : groupsFor type.group expectedOrders * type.group.width < 2 ^ 64) {m : BasicOrderMap}
    (reach : Reachable (create64 type.group expectedOrders) (FitSteps type.group) m) :
    m.Ends type.group ∧ (m.Fits type.group →
      (m.growthLeft = 0 → ∀ j ≤ m.capacity,
        ∃ t, m.rehashed64 type.group j = some t ∧ t.Ends type.group ∧ t.growthLeft ≠ 0) ∧
      ∀ ref, ∃ t n i, m.budgeted64 type.group = some t ∧ t.Ends type.group ∧ t.growthLeft ≠ 0 ∧
        n ≤ t.capacity / type.group.width ∧ t.FreeLoop type.group (t.groupIndex (hash ref)) 1 n i ∧
        (t.ctrlAt i = kCtrlEmpty ∨ t.ctrlAt i = kCtrlDeleted ∧ 0 < t.tombstones) ∧
        m.insert64 type.group ref = some (t.claim ref i, i)) := by
  obtain ⟨k, wf⟩ := reachable_wf fits reach
  refine ⟨wf.ends, fun next => ⟨fun spent j within => rehashed_ends wf next spent within, fun ref => insert_ends wf next ref⟩⟩

theorem reachable_ends_sample :
    ∃ m i, (create64 groupSwar 4).insert64 groupSwar 7 = some (m, i) ∧ m.Ends groupSwar := by
  have small : groupsFor groupSwar 4 * groupSwar.width < 2 ^ 64 := by decide
  obtain ⟨k, wf, none⟩ := create_spec groupSwar 4
  rw [← create64_eq small] at wf none
  have fits : (create64 groupSwar 4).Fits groupSwar := fun _ => by decide
  obtain ⟨t, n, i, -, -, -, -, -, -, inserted⟩ := insert_ends wf fits 7
  have absent : ∀ o ∈ (create64 groupSwar 4).orders, o.ref ≠ 7 := by
    rw [none]
    exact fun o member => absurd member List.not_mem_nil
  have taken : (create64 groupSwar 4).FitSteps groupSwar (.insert 7) (t.claim 7 i) :=
    ⟨⟨absent, i, inserted⟩, fun _ _ => fits⟩
  exact ⟨_, i, inserted, (reachable_ends .swar 4 small (.next .start taken)).1⟩

/-- The product of 2 ^ 59 groups and 32 wraps to 0. -/
theorem groupsFor_huge : groupsFor groupAvx2 9000000000000000000 = 2 ^ 59 := by
  have exponent : Nat.clog 2 321428571428571429 = 59 :=
    Nat.le_antisymm ((Nat.clog_le_iff_le_pow Nat.one_lt_two).mpr (by decide))
      ((Nat.lt_clog_iff_pow_lt Nat.one_lt_two).mpr (by decide))
  have quotient : ((9000000000000000000 + 9000000000000000000 / 7 + 1) % 2 ^ 64 + 32 - 1) % 2 ^ 64 / 32 = 321428571428571429 := by
    decide
  change (if 2 ^ Nat.clog 2 (((9000000000000000000 + 9000000000000000000 / 7 + 1) % 2 ^ 64 + 32 - 1) % 2 ^ 64 / 32) < 2 then 2
    else 2 ^ Nat.clog 2 (((9000000000000000000 + 9000000000000000000 / 7 + 1) % 2 ^ 64 + 32 - 1) % 2 ^ 64 / 32)) = 2 ^ 59
  rw [quotient, exponent]
  rfl

/-- For so many expected orders the new table has no slots, and `find` does not end on it. -/
theorem huge_table_lost : ¬ ∀ (type : GroupType) (expectedOrders : Nat), expectedOrders < 2 ^ 64 → ∀ m : BasicOrderMap,
    Reachable (create64 type.group expectedOrders) (Steps type.group) m → m.Ends type.group := by
  intro always
  have ends := always .avx2 9000000000000000000 (by decide) _ .start
  obtain ⟨n, -, r, loop⟩ := ends.find 1
  have none : (create64 groupAvx2 9000000000000000000).ctrl = [] := by
    rw [create64, groupsFor_huge]
    rfl
  exact findLoop_lost none loop

end BasicOrderMap

end Itch
