import Itch.OrderMapChurn

namespace Itch

namespace BasicOrderMap

variable {type : GroupType} {limit : Nat} {m t : BasicOrderMap} {c : TableCall}

/-- A call that leaves the arrays where they are takes at most one from the budget, if it is an insert. -/
structure Stays (m : BasicOrderMap) (c : TableCall) (t : BasicOrderMap) : Prop where
  capacity : t.capacity = m.capacity
  rehashes : t.rehashes = m.rehashes
  budget : m.growthLeft ≤ t.growthLeft + c.inserts

/-- An insert that went through a rehash, which doubled the table if more than half of its load were live orders. -/
structure Rebuilds (limit : Nat) (m : BasicOrderMap) (c : TableCall) (t : BasicOrderMap) : Prop where
  spent : m.growthLeft = 0
  insert : c.inserts = 1
  live : m.orders.length < limit
  rehashes : t.rehashes = m.rehashes + 1
  budget : t.growthLeft + 1 + m.orders.length = maxLoad t.capacity
  capacity : t.capacity = m.capacity ∧ m.orders.length * 2 ≤ maxLoad m.capacity ∨
    t.capacity = m.capacity * 2 ∧ maxLoad m.capacity < m.orders.length * 2

theorem Sound.balance {G : Group} (sound : m.Sound G) :
    m.growthLeft + m.orders.length + m.ctrl.count kCtrlDeleted = maxLoad m.capacity := by
  rcases sound with ⟨-, k, wf⟩ | ⟨capacity, ctrl, spent⟩
  · rw [← wf.size_eq, ← wf.tombstones]
    exact wf.growth
  · rw [orders, capacity, ctrl, spent]
    rfl

theorem Sound.eight_dvd (sound : m.Sound type.group) : 8 ∣ m.capacity := by
  rcases sound with ⟨-, k, wf⟩ | ⟨capacity, -⟩
  · obtain ⟨w, wide, width⟩ := width_two_pow type
    rw [wf.capacity, width]
    exact Dvd.dvd.mul_left (pow_dvd_pow 2 wide) _
  · rw [capacity]
    exact Nat.dvd_zero 8

/-- After a rehash at least half of the load budget is left, the insert that asked for it included. -/
theorem Rebuilds.half {c : TableCall} (rebuilds : m.Rebuilds limit c t) (sound : m.Sound type.group) :
    maxLoad t.capacity ≤ 2 * (t.growthLeft + 1) := by
  have balance := sound.balance
  have budget := rebuilds.budget
  have spent := rebuilds.spent
  obtain ⟨q, eighths⟩ := sound.eight_dvd
  rcases rebuilds.capacity with ⟨same, few⟩ | ⟨double, -⟩
  · rw [same] at budget ⊢
    omega
  · rw [double] at budget ⊢
    rw [eighths] at budget balance ⊢
    unfold maxLoad at budget balance ⊢
    omega

theorem erase_stays (G : Group) (m : BasicOrderMap) (i : Nat) : m.Stays (.erase i) (m.erase G i) := by
  unfold erase
  dsimp only
  split
  · exact ⟨rfl, rfl, Nat.le_succ _⟩
  · exact ⟨rfl, rfl, Nat.le_refl _⟩

/-- What a call of a churning caller can do. -/
theorem Sound.next_cases (sound : m.Sound type.group) (churns : m.Churns limit c) (step : m.next type.group c = some t) :
    t.Sound type.group ∧ (m.Stays c t ∨ m.Rebuilds limit c t) := by
  rcases sound with ⟨below, k, wf⟩ | ⟨capacity, ctrl, spent⟩
  · have room : m.growthLeft ≤ maxLoad m.capacity := by
      have growth := wf.growth
      omega
    cases c with
    | insert ref =>
      obtain ⟨⟨t', i⟩, inserted, rfl⟩ := Option.map_eq_some_iff.mp step
      by_cases spent : m.growthLeft = 0
      · obtain ⟨kept, budget, capacity⟩ := wf.insert64_rehashed spent inserted
        rw [wf.size_eq] at budget capacity
        exact ⟨.inl kept, .inr ⟨spent, rfl, churns.2, (insert64_rehashes spent inserted).1, budget, capacity⟩⟩
      · obtain ⟨u, j, result, kept, capacity, rehashes, budget⟩ := wf.insert64_spec spent ref
        obtain ⟨rfl, -⟩ := Prod.mk.inj (Option.some.inj (inserted.symm.trans result))
        exact ⟨.inl ⟨capacity ▸ below, k, kept⟩, .inl ⟨capacity, rehashes, budget⟩⟩
    | fill i o =>
      obtain rfl := Option.some.inj step
      obtain ⟨o', alive, same⟩ := churns
      exact ⟨.inl ⟨below, k, (write_spec wf alive same).1⟩, .inl ⟨rfl, rfl, Nat.le_refl _⟩⟩
    | erase i =>
      obtain rfl := Option.some.inj step
      have stays := erase_stays type.group m i
      exact ⟨.inl ⟨stays.capacity ▸ below, k, (erase_spec wf (if_pos churns)).1⟩, .inl stays⟩
    | clear =>
      obtain rfl := Option.some.inj step
      exact ⟨.inl ⟨below, k, (clear_empties wf).1⟩, .inl ⟨rfl, rfl, room⟩⟩
  · have empty : ∀ i, ¬ m.ctrlAt i < 0x80 := by
      intro i
      rw [ctrlAt, ctrl, List.getD_nil]
      decide
    cases c with
    | insert ref =>
      obtain ⟨⟨t', i⟩, inserted, -⟩ := Option.map_eq_some_iff.mp step
      obtain ⟨-, wrapped, some⟩ := insert64_rehashes spent inserted
      rw [rehashGroups, capacity, Nat.zero_div] at wrapped
      refine absurd (wrapped.trans ?_) some
      split <;> simp
    | fill i o =>
      obtain ⟨o', alive, -⟩ := churns
      exact absurd (live_eq_some.mp alive).1 (empty i)
    | erase i => exact absurd churns (empty i)
    | clear =>
      obtain rfl := Option.some.inj step
      have none : m.clear.ctrl = [] ∧ m.clear.growthLeft = 0 := by
        rw [clear, capacity]
        exact ⟨rfl, rfl⟩
      exact ⟨.inr ⟨capacity, none⟩, .inl ⟨rfl, rfl, by rw [spent]; exact Nat.zero_le _⟩⟩

section Run

variable {s : Option BasicOrderMap} {run : List TableCall}

theorem foldl_after_none (G : Group) (run : List TableCall) : run.foldl (after G) none = none := by
  induction run with
  | nil => rfl
  | cons c run ih => exact ih

theorem run_sound (start : ∀ m, s = some m → m.Sound type.group)
    (churns : Runs.Every (after type.group) (Legal limit) s run) :
    ∀ m, run.foldl (after type.group) s = some m → m.Sound type.group := by
  refine @Runs.Every.invariant _ _ _ _ (fun s => ∀ m, s = some m → m.Sound type.group) ?_ _ _ start churns
  intro s c sound legal t step
  obtain ⟨m, rfl, next⟩ := Option.bind_eq_some_iff.mp step
  exact ((sound m rfl).next_cases (legal m rfl) next).1

/-- Up to the next rehash the budget pays for the inserts. -/
theorem run_budget (sound : m.Sound type.group) (churns : Runs.Every (after type.group) (Legal limit) (some m) run)
    (ends : run.foldl (after type.group) (some m) = some t) : m.rehashes ≤ t.rehashes ∧
      (t.rehashes = m.rehashes → m.growthLeft ≤ t.growthLeft + (run.map TableCall.inserts).sum) := by
  induction run generalizing m with
  | nil =>
    obtain rfl := Option.some.inj ends
    exact ⟨Nat.le_refl _, fun _ => Nat.le_refl _⟩
  | cons c run ih =>
    rw [List.foldl_cons] at ends
    cases step : after type.group (some m) c with
    | none =>
      rw [step, foldl_after_none] at ends
      cases ends
    | some u =>
      rw [step] at ends
      obtain ⟨legal, rest⟩ := churns
      rw [step] at rest
      obtain ⟨kept, moved⟩ := sound.next_cases (legal m rfl) step
      obtain ⟨later, budget⟩ := ih kept rest ends
      rw [List.map_cons, List.sum_cons]
      rcases moved with stays | rebuilds
      · have first := stays.budget
        have rehashes := stays.rehashes
        refine ⟨by omega, fun same => ?_⟩
        have next := budget (by omega)
        omega
      · have more := rebuilds.rehashes
        exact ⟨by omega, fun same => by omega⟩

/-- The table keeps its first size, or is not larger than four times its live orders ever were. -/
theorem run_capacity {first : Nat} (start : ∀ m, s = some m → m.Sound type.group ∧
      (m.capacity = first ∨ maxLoad m.capacity < 4 * limit))
    (churns : Runs.Every (after type.group) (Legal limit) s run) :
    ∀ m, run.foldl (after type.group) s = some m → m.Sound type.group ∧
      (m.capacity = first ∨ maxLoad m.capacity < 4 * limit) := by
  refine @Runs.Every.invariant _ _ _ _ (fun s => ∀ m, s = some m → m.Sound type.group ∧
    (m.capacity = first ∨ maxLoad m.capacity < 4 * limit)) ?_ _ _ start churns
  intro s c inv legal t step
  obtain ⟨m, rfl, next⟩ := Option.bind_eq_some_iff.mp step
  obtain ⟨sound, bound⟩ := inv m rfl
  obtain ⟨kept, moved⟩ := sound.next_cases (legal m rfl) next
  refine ⟨kept, ?_⟩
  rcases moved with stays | rebuilds
  · rw [stays.capacity]
    exact bound
  · rcases rebuilds.capacity with ⟨same, -⟩ | ⟨double, full⟩
    · rw [same]
      exact bound
    · have live := rebuilds.live
      refine .inr ?_
      rw [double]
      unfold maxLoad at full ⊢
      omega

end Run

/-- Whether an insert finds room for one more live order beside the tombstones. -/
def Roomy (s : Option BasicOrderMap) (c : TableCall) : Prop :=
  ∀ m, s = some m → c.inserts = 1 → m.orders.length + m.ctrl.count kCtrlDeleted < maxLoad m.capacity

instance : (s : Option BasicOrderMap) → (c : TableCall) → Decidable (Roomy s c)
  | none, _ => isTrue nofun
  | some m, c => decidable_of_iff (c.inserts = 1 → m.orders.length + m.ctrl.count kCtrlDeleted < maxLoad m.capacity)
    ⟨fun room _ same => Option.some.inj same ▸ room, fun roomy => roomy m rfl⟩

/-- A table that never went through a rehash. -/
def Presized (first : Nat) (s : Option BasicOrderMap) : Prop :=
  ∃ m, s = some m ∧ m.rehashes = 0 ∧ m.capacity = first

theorem Sound.stays_presized_iff {first : Nat} (sound : m.Sound type.group) (rehashes : m.rehashes = 0)
    (capacity : m.capacity = first) (churns : m.Churns limit c) :
    Presized first (after type.group (some m) c) ↔ Roomy (some m) c := by
  have balance := sound.balance
  constructor
  · rintro ⟨t, step, none, -⟩ m' ⟨⟩ insert
    have unspent : m.growthLeft ≠ 0 := by
      intro spent
      obtain ⟨ref, rfl⟩ : ∃ ref, c = .insert ref := by
        cases c with
        | insert ref => exact ⟨ref, rfl⟩
        | fill i o => cases insert
        | erase i => cases insert
        | clear => cases insert
      obtain ⟨⟨u, i⟩, inserted, rfl⟩ := Option.map_eq_some_iff.mp step
      have one := (insert64_rehashes spent inserted).1
      change u.rehashes = 0 at none
      omega
    omega
  · intro roomy
    cases c with
    | insert ref =>
      have room := roomy m rfl rfl
      have unspent : m.growthLeft ≠ 0 := by omega
      rcases sound with ⟨-, k, wf⟩ | ⟨-, -, spent⟩
      · obtain ⟨t, i, inserted, -, same, kept, -⟩ := wf.insert64_spec unspent ref
        exact ⟨t, congrArg (Option.map Prod.fst) inserted, kept.trans rehashes, same.trans capacity⟩
      · exact absurd spent unspent
    | fill i o => exact ⟨_, rfl, rehashes, capacity⟩
    | erase i =>
      have stays := erase_stays type.group m i
      exact ⟨_, rfl, stays.rehashes.trans rehashes, stays.capacity.trans capacity⟩
    | clear => exact ⟨_, rfl, rehashes, capacity⟩

/-- A table sized up front is never rehashed exactly if every insert of the run finds fewer
live orders and tombstones, taken together, than the load limit. -/
theorem presized_iff (type : GroupType) (expectedOrders : Nat) {run : List TableCall}
    (churns : ChurnsAll type.group expectedOrders expectedOrders run) :
    (∀ k, Presized (create64 type.group expectedOrders).capacity (ran type.group expectedOrders (run.take k))) ↔
      Runs.Every (after type.group) Roomy (some (create64 type.group expectedOrders)) run := by
  have sound := create64_sound type expectedOrders
  rw [← Runs.Every.every_iff (fun s => Presized (create64 type.group expectedOrders).capacity s ∧
    ∀ m, s = some m → m.Sound type.group) ?_ ⟨⟨_, rfl, rfl, rfl⟩, ?_⟩ churns]
  · refine forall_congr' fun k => (and_iff_left ?_).symm
    exact run_sound (fun m start => Option.some.inj start ▸ sound) (churns.take k)
  · rintro s c ⟨⟨m, rfl, rehashes, capacity⟩, sound⟩ legal
    rw [(sound m rfl).stays_presized_iff rehashes capacity (legal m rfl) |>.symm]
    refine and_iff_left fun t step => ?_
    exact ((sound m rfl).next_cases (legal m rfl) step).1
  · exact fun m start => Option.some.inj start ▸ sound

/-- A group filled and emptied leaves tombstones only, which the inserts into another group do not reuse. -/
def churned : List TableCall :=
  [2, 4, 5, 7, 10, 12, 13, 15].map .insert ++ (List.range 8).map .erase ++ [1, 3, 6, 8, 9, 11, 14].map .insert

theorem presized_iff_sample : Presized 16 (ran groupSwar 8 (churned.take 22)) := by
  have churns : ChurnsAll groupSwar 8 8 (churned.take 22) := by decide +kernel
  have roomy : Runs.Every (after groupSwar) Roomy (some (create64 groupSwar 8)) (churned.take 22) := by decide +kernel
  exact (presized_iff .swar 8 churns).mpr roomy 22

/-- A table for 8 orders is rehashed at the seventh live one. -/
theorem churned_rehashes : ¬ ∀ (type : GroupType) (expectedOrders : Nat) (run : List TableCall),
    ChurnsAll type.group expectedOrders expectedOrders run → ∀ k,
      Presized (create64 type.group expectedOrders).capacity (ran type.group expectedOrders (run.take k)) := by
  intro always
  have churns : ChurnsAll groupSwar 8 8 churned := by decide +kernel
  obtain ⟨m, ends, none, -⟩ := always .swar 8 churned churns 23
  have once : (ran groupSwar 8 (churned.take 23)).map (fun m => m.rehashes) = some 1 := by decide +kernel
  change ran groupSwar 8 (churned.take 23) = some m at ends
  rw [ends, Option.map_some, none] at once
  cases once

/-- The table stays in proportion to the live orders, and rehashes are at least half a load of inserts apart. -/
theorem rehashes_bounded (type : GroupType) (expectedOrders limit : Nat) {run : List TableCall}
    (churns : ChurnsAll type.group limit expectedOrders run) :
    (∀ m, ran type.group expectedOrders run = some m →
      m.capacity = (create64 type.group expectedOrders).capacity ∨ maxLoad m.capacity < 4 * limit) ∧
    ∀ before ref later rest, run = before ++ .insert ref :: later ++ rest → ∀ m m₁ m₂,
      ran type.group expectedOrders before = some m →
      ran type.group expectedOrders (before ++ [.insert ref]) = some m₁ → m₁.rehashes ≠ m.rehashes →
      ran type.group expectedOrders (before ++ .insert ref :: later) = some m₂ → m₂.rehashes = m₁.rehashes →
      m₂.growthLeft = 0 →
      maxLoad m₁.capacity ≤ 2 * (1 + (later.map TableCall.inserts).sum) := by
  have sound := create64_sound type expectedOrders
  have start : ∀ m, some (create64 type.group expectedOrders) = some m → m.Sound type.group := by
    rintro m ⟨⟩
    exact sound
  constructor
  · intro m ends
    refine (run_capacity ?_ churns m ends).2
    rintro m ⟨⟩
    exact ⟨sound, .inl rfl⟩
  · rintro before ref later rest rfl m m₁ m₂ ends first more last same spent
    obtain ⟨churns, -⟩ := Runs.every_append_run.mp churns
    obtain ⟨early, legal, late⟩ := Runs.every_append_run.mp churns
    have kept := run_sound start early m ends
    rw [ran, List.foldl_append, List.foldl_cons, List.foldl_nil] at first
    rw [ran, List.foldl_append, List.foldl_cons] at last
    rw [ran] at ends
    rw [ends] at first last late legal
    obtain ⟨sound₁, moved⟩ := kept.next_cases (legal m rfl) first
    rcases moved with stays | rebuilds
    · exact absurd stays.rehashes more
    · have half := rebuilds.half kept
      rw [first] at last late
      have budget := (run_budget sound₁ late last).2 same
      omega

theorem rehashes_bounded_sample : ∃ m, ran groupSwar 8 churned = some m ∧ (m.capacity = 16 ∨ maxLoad m.capacity < 32) := by
  have churns : ChurnsAll groupSwar 8 8 churned := by decide +kernel
  have returns : (ran groupSwar 8 churned).isSome := by decide +kernel
  obtain ⟨m, ends⟩ := Option.isSome_iff_exists.mp returns
  exact ⟨m, ends, (rehashes_bounded .swar 8 8 churns).1 m ends⟩

end BasicOrderMap

end Itch
