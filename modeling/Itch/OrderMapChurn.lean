import Itch.Lib.Runs
import Itch.OrderMapRuns

namespace Itch

/-- How many inserts a call is. -/
def TableCall.inserts : TableCall → Nat
  | insert _ => 1
  | fill _ _ => 0
  | erase _ => 0
  | clear => 0

namespace BasicOrderMap

section Churn

variable (G : Group)

/-- The table after a call that returns. -/
def next (m : BasicOrderMap) : TableCall → Option BasicOrderMap
  | .insert ref => (m.insert64 G ref).map Prod.fst
  | .fill i o => some (m.write i o)
  | .erase i => some (m.erase G i)
  | .clear => some m.clear

/-- A run goes on as long as its calls return. -/
def after (s : Option BasicOrderMap) (c : TableCall) : Option BasicOrderMap := s.bind fun m => m.next G c

/-- The table after a run of calls on a new one. -/
def ran (expectedOrders : Nat) (run : List TableCall) : Option BasicOrderMap :=
  run.foldl (after G) (some (create64 G expectedOrders))

/-- A caller that inserts absent references, fills in and erases live slots, and never has
more than so many orders live. -/
def Churns (limit : Nat) (m : BasicOrderMap) : TableCall → Prop
  | .insert ref => (∀ o ∈ m.orders, o.ref ≠ ref) ∧ m.orders.length < limit
  | .fill i o => ∃ o', m.live i = some o' ∧ o.ref = o'.ref
  | .erase i => m.ctrlAt i < 0x80
  | .clear => True

def Legal (limit : Nat) (s : Option BasicOrderMap) (c : TableCall) : Prop := ∀ m, s = some m → m.Churns limit c

def ChurnsAll (limit expectedOrders : Nat) : List TableCall → Prop :=
  Runs.Every (after G) (Legal limit) (some (create64 G expectedOrders))

instance (limit : Nat) (m : BasicOrderMap) : (c : TableCall) → Decidable (m.Churns limit c)
  | .insert ref => inferInstanceAs (Decidable ((∀ o ∈ m.orders, o.ref ≠ ref) ∧ m.orders.length < limit))
  | .fill i o => inferInstanceAs (Decidable (∃ o' ∈ m.live i, o.ref = o'.ref))
  | .erase i => inferInstanceAs (Decidable (m.ctrlAt i < 0x80))
  | .clear => isTrue trivial

instance (limit : Nat) : (s : Option BasicOrderMap) → (c : TableCall) → Decidable (Legal limit s c)
  | none, _ => isTrue nofun
  | some m, c => decidable_of_iff (m.Churns limit c)
    ⟨fun churns _ same => Option.some.inj same ▸ churns, fun legal => legal m rfl⟩

/-- A table that calls can lead to: well formed, or without slots where the product of its
groups and their width wrapped. -/
def Sound (m : BasicOrderMap) : Prop :=
  (m.capacity < 2 ^ 64 ∧ ∃ k, m.WF G k) ∨ m.capacity = 0 ∧ m.ctrl = [] ∧ m.growthLeft = 0

instance (limit expectedOrders : Nat) (run : List TableCall) : Decidable (ChurnsAll G limit expectedOrders run) :=
  inferInstanceAs (Decidable (Runs.Every (after G) (Legal limit) (some (create64 G expectedOrders)) run))

end Churn

variable {G : Group} {k : Nat} {m t : BasicOrderMap}

theorem width_two_pow (type : GroupType) : ∃ w, 3 ≤ w ∧ type.group.width = 2 ^ w := by
  cases type with
  | swar => exact ⟨3, by decide, rfl⟩
  | sse2 => exact ⟨4, by decide, rfl⟩
  | avx2 => exact ⟨5, by decide, rfl⟩

/-- The product of `allocate` is exact, or it is 0. -/
theorem capacity_wraps (type : GroupType) (k : Nat) :
    2 ^ k * type.group.width < 2 ^ 64 ∨ 2 ^ k * type.group.width % 2 ^ 64 = 0 := by
  obtain ⟨w, -, width⟩ := width_two_pow type
  rw [width, ← pow_add]
  rcases Nat.lt_or_ge (k + w) 64 with small | large
  · exact .inl (Nat.pow_lt_pow_right Nat.one_lt_two small)
  · exact .inr (Nat.mod_eq_zero_of_dvd (pow_dvd_pow 2 large))

theorem allocate64_sound (type : GroupType) (m : BasicOrderMap) (k : Nat) :
    (m.allocate64 type.group (2 ^ k)).Sound type.group := by
  rcases capacity_wraps type k with fits | wraps
  · rw [allocate64_eq fits]
    exact .inl ⟨fits, k, (allocate_spec m type.group k).1⟩
  · refine .inr ⟨wraps, ?_, ?_⟩
    · change List.replicate (2 ^ k * type.group.width % 2 ^ 64) kCtrlEmpty = []
      rw [wraps]
      rfl
    · change maxLoad (2 ^ k * type.group.width % 2 ^ 64) = 0
      rw [wraps]
      rfl

theorem create64_sound (type : GroupType) (expectedOrders : Nat) :
    (create64 type.group expectedOrders).Sound type.group := by
  obtain ⟨k, groups⟩ := groupsFor_two_pow type.group expectedOrders
  rw [create64, groups]
  exact allocate64_sound type {} k

section Insert

variable {ref : UInt64} {i : Nat}

theorem place_some (placed : m.place G ref = some (t, i)) : t = m.claim ref i ∧ m.capacity ≠ 0 := by
  rw [place] at placed
  obtain ⟨j, free, claimed⟩ := Option.map_eq_some_iff.mp placed
  obtain ⟨rfl, rfl⟩ := Prod.mk.inj claimed
  refine ⟨rfl, fun zero => ?_⟩
  rw [zero, Nat.zero_div] at free
  cases free

theorem claim_rehashes (m : BasicOrderMap) (ref : UInt64) (i : Nat) : (m.claim ref i).rehashes = m.rehashes := by
  unfold claim
  dsimp only
  split <;> rfl

/-- The moves of a rehash keep the size of the fresh table and its statistics. -/
theorem moves_keep (is : List Nat) {fresh : BasicOrderMap} (moved : is.foldlM (move (insertWithin G 0) m) fresh = some t) :
    t.capacity = fresh.capacity ∧ t.rehashes = fresh.rehashes := by
  induction is generalizing fresh with
  | nil =>
    obtain rfl := Option.some.inj moved
    exact ⟨rfl, rfl⟩
  | cons i is ih =>
    rw [List.foldlM_cons] at moved
    obtain ⟨next, one, rest⟩ := Option.bind_eq_some_iff.mp moved
    obtain ⟨capacity, rehashes⟩ := ih rest
    rw [capacity, rehashes]
    unfold move at one
    split at one
    · obtain ⟨⟨u, j⟩, inserted, written⟩ := Option.map_eq_some_iff.mp one
      obtain rfl := written
      unfold insertWithin at inserted
      split at inserted
      · cases inserted
      · obtain ⟨rfl, -⟩ := place_some inserted
        exact ⟨(claim_shape fresh (m.slot i).ref j).1, claim_rehashes fresh (m.slot i).ref j⟩
    · obtain rfl := Option.some.inj one
      exact ⟨rfl, rfl⟩

theorem rehash64_keeps (rehashed : m.rehash64 G = some t) :
    t.capacity = m.rehashGroups G * G.width % 2 ^ 64 ∧ t.rehashes = m.rehashes + 1 := by
  obtain ⟨u, moved, rfl⟩ := Option.map_eq_some_iff.mp rehashed
  obtain ⟨capacity, rehashes⟩ := moves_keep _ moved
  exact ⟨capacity, congrArg Nat.succ rehashes⟩

/-- An insert that finds the budget spent and returns has rehashed. -/
theorem insert64_rehashes (spent : m.growthLeft = 0) (inserted : m.insert64 G ref = some (t, i)) :
    t.rehashes = m.rehashes + 1 ∧ t.capacity = m.rehashGroups G * G.width % 2 ^ 64 ∧ t.capacity ≠ 0 := by
  rw [insert64, budgeted64, if_pos spent] at inserted
  obtain ⟨u, rehashed, placed⟩ := Option.bind_eq_some_iff.mp inserted
  obtain ⟨rfl, some⟩ := place_some placed
  obtain ⟨capacity, rehashes⟩ := rehash64_keeps rehashed
  rw [claim_rehashes, (claim_shape u ref i).1]
  exact ⟨rehashes, capacity, some⟩

/-- An insert with budget left takes at most one from it. -/
theorem WF.insert64_spec (wf : m.WF G k) (budget : m.growthLeft ≠ 0) (ref : UInt64) : ∃ t i,
    m.insert64 G ref = some (t, i) ∧ t.WF G k ∧ t.capacity = m.capacity ∧ t.rehashes = m.rehashes ∧
      m.growthLeft ≤ t.growthLeft + 1 := by
  obtain ⟨i, placed, -, -, kept, -⟩ := place_spec wf ref budget
  refine ⟨m.claim ref i, i, ?_, kept, (claim_shape m ref i).1, claim_rehashes m ref i, ?_⟩
  · rw [insert64, budgeted64, if_neg budget]
    exact placed
  · rw [(claim_budget m ref i).1]
    split <;> omega

/-- A rehash that its insert returns from purged the tombstones or doubled the table, and
left all budget but that of the live orders. -/
theorem WF.insert64_rehashed {type : GroupType} (wf : m.WF type.group k) (spent : m.growthLeft = 0)
    (inserted : m.insert64 type.group ref = some (t, i)) : (t.capacity < 2 ^ 64 ∧ ∃ k, t.WF type.group k) ∧
      t.growthLeft + 1 + m.size = maxLoad t.capacity ∧
      (t.capacity = m.capacity ∧ m.size * 2 ≤ maxLoad m.capacity ∨
        t.capacity = m.capacity * 2 ∧ maxLoad m.capacity < m.size * 2) := by
  obtain ⟨-, capacity, some⟩ := insert64_rehashes spent inserted
  obtain ⟨k', groups, -, -⟩ := fresh_filling wf
  have fits : m.rehashGroups type.group * type.group.width < 2 ^ 64 := by
    rw [groups] at capacity ⊢
    exact (capacity_wraps type k').resolve_right fun wraps => some (capacity.trans wraps)
  rw [Nat.mod_eq_of_lt fits] at capacity
  obtain ⟨u, k'', moved, filled, kept⟩ := rehashed_spec wf (Nat.le_refl m.capacity)
  have live : u.size = m.size := by
    rw [filled.wf.size_eq, wf.size_eq]
    exact kept.length_eq
  obtain ⟨grows, ready⟩ : ∃ grows, m.budgeted64 type.group = .some { u with rehashes := u.rehashes + 1, grows } := by
    rw [budgeted64, if_pos spent, rehash64, rehashed64_eq fits, moved]
    exact ⟨_, rfl⟩
  have fresh : WF type.group k'' { u with rehashes := u.rehashes + 1, grows } := { filled.wf with }
  obtain ⟨t', j, o, placed, wf', -, -, -, same, size, tombstones⟩ := place_orders fresh ref filled.budget
  rw [insert64, ready] at inserted
  obtain ⟨rfl, rfl⟩ := Prod.mk.inj (Option.some.inj (inserted.symm.trans placed))
  have growth := wf'.growth
  rw [tombstones filled.clean, size] at growth
  refine ⟨⟨capacity ▸ fits, k'', wf'⟩, ?_, ?_⟩
  · change t.growthLeft + (u.size + 1) + 0 = maxLoad t.capacity at growth
    omega
  · rw [capacity, rehashGroups, wf.groups, wf.capacity]
    split <;> rename_i grow
    · exact .inr ⟨by ring, grow⟩
    · exact .inl ⟨rfl, Nat.le_of_not_lt grow⟩

end Insert

end BasicOrderMap

end Itch
