import Itch.BboCache

namespace Itch

namespace LoadPhase

/-- The words read so far are those of `snap`. -/
def Seen (snap : BboSnapshot) : LoadPhase → Prop
  | .idle => True
  | .prices _ => True
  | .bidQty _ p => p = BboCache.pack snap.bidPrice snap.askPrice
  | .askQty _ p bq => p = BboCache.pack snap.bidPrice snap.askPrice ∧ bq = snap.bidQty
  | .ts _ p bq aq => p = BboCache.pack snap.bidPrice snap.askPrice ∧ bq = snap.bidQty ∧ aq = snap.askQty
  | .seqAgain _ p bq aq t =>
    p = BboCache.pack snap.bidPrice snap.askPrice ∧ bq = snap.bidQty ∧ aq = snap.askQty ∧ t = snap.timestamp

/-- The sequence the load in progress began at. -/
def begun : LoadPhase → Option Nat
  | .idle => none
  | .prices s1 => some s1
  | .bidQty s1 _ => some s1
  | .askQty s1 _ _ => some s1
  | .ts s1 _ _ _ => some s1
  | .seqAgain s1 _ _ _ _ => some s1

end LoadPhase

namespace BboCache

variable {ι : Type} {s : BboCache ι}

/-- The snapshot of store number `k`, the initial zeros being number 0. -/
def published (s : BboCache ι) (k : Nat) : Option BboSnapshot := (({} : BboSnapshot) :: s.stores)[k]?

/-- The four words hold `snap`. -/
def Holds (s : BboCache ι) (snap : BboSnapshot) : Prop :=
  s.prices = pack snap.bidPrice snap.askPrice ∧ s.bidQty = snap.bidQty ∧ s.askQty = snap.askQty ∧ s.ts = snap.timestamp

/-- How far a store has got, `c` stores being complete. -/
def storing (s : BboCache ι) (c : Nat) : StorePhase → Prop
  | .idle => s.seq = 2 * c ∧ ∃ snap, s.published c = some snap ∧ s.Holds snap
  | .seqOdd _ seq => seq = 2 * c ∧ s.seq = 2 * c ∧ ∃ snap, s.published c = some snap ∧ s.Holds snap
  | .prices _ seq => seq = 2 * c ∧ s.seq = 2 * c + 1
  | .bidQty new seq => seq = 2 * c ∧ s.seq = 2 * c + 1 ∧ s.prices = pack new.bidPrice new.askPrice
  | .askQty new seq => seq = 2 * c ∧ s.seq = 2 * c + 1 ∧ s.prices = pack new.bidPrice new.askPrice ∧ s.bidQty = new.bidQty
  | .ts new seq => seq = 2 * c ∧ s.seq = 2 * c + 1 ∧ s.prices = pack new.bidPrice new.askPrice ∧
      s.bidQty = new.bidQty ∧ s.askQty = new.askQty
  | .seqEven new seq => seq = 2 * c ∧ s.seq = 2 * c + 1 ∧ s.Holds new

/-- A load that began at store `k` has seen only that store while the sequence stands. -/
def loading (s : BboCache ι) (phase : LoadPhase) : Prop :=
  ∀ s1, phase.begun = some s1 → ∃ k snap, s1 = 2 * k ∧ s.published k = some snap ∧ (s.seq = s1 → phase.Seen snap)

/-- A reader's successful loads, oldest first, none after the load in progress. -/
structure History (s : BboCache ι) (phase : LoadPhase) (loads : List (Nat × BboSnapshot)) : Prop where
  ordered : loads.Pairwise fun a b => a.1 ≤ b.1
  exact : ∀ load ∈ loads, load.1 % 2 = 0 ∧ s.published (load.1 / 2) = some load.2
  before : ∀ load ∈ loads, load.1 ≤ s.seq ∧ ∀ s1, phase.begun = some s1 → load.1 ≤ s1

structure Inv (s : BboCache ι) : Prop where
  writer : s.storing s.stores.length s.writer
  readers : ∀ r, s.loading (s.readers r)
  loads : ∀ r, s.History (s.readers r) (s.loads r)

theorem initial_inv : ({} : BboCache ι).Inv where
  writer := ⟨rfl, {}, rfl, rfl, rfl, rfl, rfl⟩
  readers := fun _ _ => nofun
  loads := fun _ => ⟨List.Pairwise.nil, nofun, nofun⟩

theorem loading_idle (s : BboCache ι) : s.loading .idle := fun _ => nofun

theorem published_lt {k : Nat} {snap : BboSnapshot} (found : s.published k = some snap) : k ≤ s.stores.length := by
  obtain ⟨inside, -⟩ := List.getElem?_eq_some_iff.mp found
  rw [List.length_cons] at inside
  omega

theorem Inv.seq_bounds (inv : s.Inv) : 2 * s.stores.length ≤ s.seq ∧ s.seq ≤ 2 * s.stores.length + 1 := by
  have writer := inv.writer
  unfold storing at writer
  split at writer <;> omega

/-- While the sequence is that of store `k` the words are too. -/
theorem Inv.stable (inv : s.Inv) {k : Nat} {snap : BboSnapshot} (even : s.seq = 2 * k)
    (found : s.published k = some snap) : s.Holds snap := by
  obtain ⟨low, high⟩ := inv.seq_bounds
  have last : k = s.stores.length := by omega
  subst last
  have writer := inv.writer
  unfold storing at writer
  split at writer
  · obtain ⟨-, held, same, holds⟩ := writer
    exact Option.some.inj (same.symm.trans found) ▸ holds
  · obtain ⟨-, -, held, same, holds⟩ := writer
    exact Option.some.inj (same.symm.trans found) ▸ holds
  all_goals omega

/-- A writer step hides no store, and shows the sequence of a store it does not complete only if it stood before. -/
structure Advances (s t : BboCache ι) : Prop where
  stores : s.stores <+: t.stores
  seq : s.seq ≤ t.seq
  stands : ∀ k, k ≤ s.stores.length → t.seq = 2 * k → s.seq = 2 * k
  readers : t.readers = s.readers
  loads : t.loads = s.loads

theorem Advances.published {t : BboCache ι} (step : s.Advances t) {k : Nat} {snap : BboSnapshot}
    (found : s.published k = some snap) : t.published k = some snap := by
  obtain ⟨later, whole⟩ := step.stores
  obtain ⟨inside, -⟩ := List.getElem?_eq_some_iff.mp found
  rw [BboCache.published, ← whole, ← List.cons_append, List.getElem?_append_left inside]
  exact found

theorem Inv.advance {t : BboCache ι} (inv : s.Inv) (step : s.Advances t) (writer : t.storing t.stores.length t.writer) :
    t.Inv := by
  refine ⟨writer, ?_, ?_⟩
  · intro r s1 begun
    rw [step.readers] at begun ⊢
    obtain ⟨k, snap, rfl, found, seen⟩ := inv.readers r s1 begun
    exact ⟨k, snap, rfl, step.published found, fun same => seen (step.stands k (published_lt found) same)⟩
  · intro r
    obtain ⟨ordered, exact, before⟩ := inv.loads r
    rw [step.readers, step.loads]
    refine ⟨ordered, ?_, ?_⟩
    · intro load member
      exact ⟨(exact load member).1, step.published (exact load member).2⟩
    · intro load member
      exact ⟨Nat.le_trans (before load member).1 step.seq, (before load member).2⟩

theorem writerStep_inv (inv : s.Inv) (new : BboSnapshot) (few : (s.writerStep new).stores.length < 2 ^ 63) :
    (s.writerStep new).Inv := by
  have writer := inv.writer
  unfold writerStep at few ⊢
  unfold storing at writer
  split <;> rename_i phase <;> rw [phase] at writer few <;> dsimp only at writer few
  · obtain ⟨even, holds⟩ := writer
    exact inv.advance ⟨List.prefix_refl _, Nat.le_refl _, fun _ _ => id, rfl, rfl⟩ ⟨even, even, holds⟩
  · obtain ⟨rfl, even, -⟩ := writer
    have odd : (2 * s.stores.length + 1) % 2 ^ 64 = 2 * s.stores.length + 1 := Nat.mod_eq_of_lt (by omega)
    rw [odd]
    refine inv.advance ⟨List.prefix_refl _, ?_, ?_, rfl, rfl⟩ ⟨rfl, rfl⟩
    · change s.seq ≤ 2 * s.stores.length + 1
      omega
    · intro k _ same
      have same : 2 * s.stores.length + 1 = 2 * k := same
      omega
  · obtain ⟨rfl, odd⟩ := writer
    exact inv.advance ⟨List.prefix_refl _, Nat.le_refl _, fun _ _ => id, rfl, rfl⟩ ⟨rfl, odd, rfl⟩
  · obtain ⟨rfl, odd, prices⟩ := writer
    exact inv.advance ⟨List.prefix_refl _, Nat.le_refl _, fun _ _ => id, rfl, rfl⟩ ⟨rfl, odd, prices, rfl⟩
  · obtain ⟨rfl, odd, prices, bid⟩ := writer
    exact inv.advance ⟨List.prefix_refl _, Nat.le_refl _, fun _ _ => id, rfl, rfl⟩ ⟨rfl, odd, prices, bid, rfl⟩
  · obtain ⟨rfl, odd, prices, bid, ask⟩ := writer
    exact inv.advance ⟨List.prefix_refl _, Nat.le_refl _, fun _ _ => id, rfl, rfl⟩ ⟨rfl, odd, prices, bid, ask, rfl⟩
  · rename_i stored seq
    obtain ⟨rfl, odd, holds⟩ := writer
    have count : (s.stores ++ [stored]).length = s.stores.length + 1 := List.length_append
    have even : (2 * s.stores.length + 2) % 2 ^ 64 = 2 * s.stores.length + 2 := Nat.mod_eq_of_lt (by omega)
    rw [even]
    refine inv.advance ⟨List.prefix_append .., ?_, ?_, rfl, rfl⟩ ?_
    · change s.seq ≤ 2 * s.stores.length + 2
      omega
    · intro k behind same
      have same : 2 * s.stores.length + 2 = 2 * k := same
      omega
    · change _ ∧ _
      refine ⟨?_, stored, ?_, holds⟩
      · change 2 * s.stores.length + 2 = 2 * (s.stores ++ [stored]).length
        omega
      · change (({} : BboSnapshot) :: (s.stores ++ [stored]))[(s.stores ++ [stored]).length]? = some stored
        rw [count, List.getElem?_cons_succ, List.getElem?_append_right (Nat.le_refl _), Nat.sub_self]
        rfl

theorem writerStep_stores (s : BboCache ι) (new : BboSnapshot) : s.stores.length ≤ (s.writerStep new).stores.length := by
  unfold writerStep
  split
  case h_7 => exact List.length_append ▸ Nat.le_add_right ..
  all_goals exact Nat.le_refl _

section Reader

variable [DecidableEq ι]

/-- A reader's own step changes nothing that the others rely on. -/
theorem Inv.setReader (inv : s.Inv) (r : ι) {phase : LoadPhase} (here : s.loading phase)
    (before : ∀ load ∈ s.loads r, ∀ s1, phase.begun = some s1 → load.1 ≤ s1) : (s.setReader r phase).Inv := by
  refine ⟨inv.writer, ?_, ?_⟩
  · intro other
    by_cases same : other = r
    · subst same
      have now : (s.setReader other phase).readers other = phase := Function.update_self ..
      rw [now]
      exact here
    · have now : (s.setReader r phase).readers other = s.readers other := Function.update_of_ne same ..
      rw [now]
      exact inv.readers other
  · intro other
    obtain ⟨ordered, exact, older⟩ := inv.loads other
    refine ⟨ordered, exact, fun load member => ⟨(older load member).1, ?_⟩⟩
    by_cases same : other = r
    · subst same
      have now : (s.setReader other phase).readers other = phase := Function.update_self ..
      rw [now]
      exact before load member
    · have now : (s.setReader r phase).readers other = s.readers other := Function.update_of_ne same ..
      rw [now]
      exact (older load member).2

/-- Going on with a load: the next word is read while the sequence stands or the load is lost. -/
theorem Inv.read (inv : s.Inv) {r : ι} {s1 : Nat} (begun : (s.readers r).begun = some s1) {next : LoadPhase}
    (same : next.begun = some s1) (seen : ∀ snap, s.Holds snap → (s.readers r).Seen snap → next.Seen snap) :
    (s.setReader r next).Inv := by
  refine inv.setReader r ?_ ?_
  · intro s1' begun'
    obtain rfl : s1 = s1' := Option.some.inj (same.symm.trans begun')
    obtain ⟨k, snap, rfl, found, read⟩ := inv.readers r s1 begun
    exact ⟨k, snap, rfl, found, fun stands => seen snap (inv.stable stands found) (read stands)⟩
  · intro load member s1' begun'
    obtain rfl : s1 = s1' := Option.some.inj (same.symm.trans begun')
    exact ((inv.loads r).before load member).2 s1 begun

/-- A load that finds the sequence it began at joins the reader's history. -/
theorem Inv.finish (inv : s.Inv) {r : ι} {p bq aq t : UInt64}
    (phase : s.readers r = .seqAgain s.seq p bq aq t) :
    s.seq % 2 = 0 ∧ s.published (s.seq / 2) = some (snapshot p bq aq t) ∧
      ({ s.setReader r .idle with
         loads := Function.update s.loads r (s.loads r ++ [(s.seq, snapshot p bq aq t)]) }).Inv := by
  have reader := inv.readers r
  rw [phase] at reader
  obtain ⟨k, snap, even, found, seen⟩ := reader s.seq rfl
  obtain ⟨rfl, rfl, rfl, rfl⟩ := seen rfl
  have out : snapshot (pack snap.bidPrice snap.askPrice) snap.bidQty snap.askQty snap.timestamp = snap := by
    simp only [snapshot, pack_low, pack_high]
  have half : s.seq / 2 = k := by omega
  rw [out, half]
  refine ⟨by omega, found, ?_⟩
  obtain ⟨writer, readers, loads⟩ := inv.setReader r s.loading_idle fun _ _ _ => nofun
  refine ⟨writer, readers, ?_⟩
  intro other
  obtain ⟨ordered, exact, before⟩ := inv.loads other
  by_cases same : other = r
  · subst same
    dsimp only
    have idle : (s.setReader other .idle).readers other = .idle := Function.update_self ..
    rw [Function.update_self, show _ = LoadPhase.idle from idle]
    refine ⟨?_, ?_, ?_⟩
    · refine List.pairwise_append.mpr ⟨ordered, List.pairwise_singleton .., ?_⟩
      intro load member last added
      rw [List.mem_singleton.mp added]
      exact (before load member).1
    · intro load member
      rcases List.mem_append.mp member with old | added
      · exact exact load old
      · rw [List.mem_singleton.mp added]
        dsimp only
        rw [half]
        exact ⟨by omega, found⟩
    · intro load member
      refine ⟨?_, fun _ => nofun⟩
      rcases List.mem_append.mp member with old | added
      · exact (before load old).1
      · rw [List.mem_singleton.mp added]
        exact Nat.le_refl _
  · have kept := loads other
    dsimp only
    rw [Function.update_of_ne same]
    exact ⟨kept.ordered, kept.exact, kept.before⟩

theorem readerStep_inv (inv : s.Inv) {r : ι} {e : CacheEvent ι} {t : BboCache ι} (taken : s.readerStep r = (e, t)) :
    t.Inv ∧ ∀ r' s1 out, e = .loaded r' s1 out → s1 % 2 = 0 ∧ s.published (s1 / 2) = some out := by
  unfold readerStep at taken
  split at taken <;> rename_i phase
  · split at taken <;> rename_i odd <;> cases taken
    · exact ⟨inv, nofun⟩
    · refine ⟨inv.setReader r ?_ ?_, nofun⟩
      · rintro s1 ⟨⟩
        obtain ⟨low, high⟩ := inv.seq_bounds
        have whole : s.stores.length < (({} : BboSnapshot) :: s.stores).length := Nat.lt_succ_self _
        exact ⟨s.stores.length, _, by omega, List.getElem?_eq_getElem whole, fun _ => trivial⟩
      · rintro load member s1 ⟨⟩
        exact ((inv.loads r).before load member).1
  · cases taken
    refine ⟨inv.read (congrArg LoadPhase.begun phase) rfl ?_, nofun⟩
    rw [phase]
    exact fun snap holds _ => holds.1
  · cases taken
    refine ⟨inv.read (congrArg LoadPhase.begun phase) rfl ?_, nofun⟩
    rw [phase]
    exact fun snap holds prices => ⟨prices, holds.2.1⟩
  · cases taken
    refine ⟨inv.read (congrArg LoadPhase.begun phase) rfl ?_, nofun⟩
    rw [phase]
    exact fun snap holds ⟨prices, bid⟩ => ⟨prices, bid, holds.2.2.1⟩
  · cases taken
    refine ⟨inv.read (congrArg LoadPhase.begun phase) rfl ?_, nofun⟩
    rw [phase]
    exact fun snap holds ⟨prices, bid, ask⟩ => ⟨prices, bid, ask, holds.2.2.2⟩
  · dsimp only at taken
    split at taken <;> rename_i stands <;> cases taken
    · subst stands
      obtain ⟨even, found, kept⟩ := inv.finish phase
      refine ⟨kept, ?_⟩
      rintro r' s1 out ⟨⟩
      exact ⟨even, found⟩
    · exact ⟨inv.setReader r s.loading_idle fun _ _ _ => nofun, nofun⟩

theorem readerStep_stores {r : ι} {e : CacheEvent ι} {t : BboCache ι} (taken : s.readerStep r = (e, t)) :
    t.stores = s.stores := by
  have same : (s.readerStep r).2.stores = s.stores := by
    unfold readerStep
    split
    · split <;> rfl
    · rfl
    · rfl
    · rfl
    · rfl
    · dsimp only
      split <;> rfl
  rw [← same, taken]

theorem reachable_inv (reach : Reachable {} Step s) (few : s.stores.length < 2 ^ 63) : s.Inv := by
  revert few
  refine reach.invariant (fun s => s.stores.length < 2 ^ 63 → s.Inv) (fun _ => initial_inv) ?_
  rintro s e t inv (⟨new, rfl, -⟩ | ⟨r, taken⟩) few
  · exact writerStep_inv (inv (Nat.lt_of_le_of_lt (s.writerStep_stores new) few)) new few
  · exact (readerStep_inv (inv (readerStep_stores taken ▸ few)) taken).1

/-- A load that succeeds returns the store its sequence numbers, the loads of
one reader never go back, and the version counts the completed stores. -/
theorem loads_never_torn (reach : Reachable {} Step s) (few : s.stores.length < 2 ^ 63) :
    (∀ r s1 out t, Step s (.loaded r s1 out) t → s1 % 2 = 0 ∧ s.published (s1 / 2) = some out) ∧
    (∀ r, (s.loads r).Pairwise fun earlier later => earlier.1 / 2 ≤ later.1 / 2) ∧
    (∀ r, ∀ load ∈ s.loads r, s.published (load.1 / 2) = some load.2) ∧
    s.version = s.stores.length := by
  have inv := reachable_inv reach few
  refine ⟨?_, ?_, ?_, ?_⟩
  · rintro r s1 out t (⟨_, _, impossible⟩ | ⟨r', taken⟩)
    · cases impossible
    · exact (readerStep_inv inv taken).2 r s1 out rfl
  · intro r
    exact (inv.loads r).ordered.imp fun earlier => Nat.div_le_div_right earlier
  · intro r load member
    exact ((inv.loads r).exact load member).2
  · obtain ⟨low, high⟩ := inv.seq_bounds
    rw [version]
    omega

end Reader

/-- A reader that the second store cuts in on fails; its next load sees that store whole. -/
theorem loads_never_torn_sample :
    let old : BboSnapshot := { bidPrice := 100, askPrice := 101, bidQty := 5, askQty := 6, timestamp := 9 }
    let new : BboSnapshot := { bidPrice := 99, askPrice := 102, bidQty := 7, askQty := 8, timestamp := 10 }
    let read := fun s : BboCache Unit => (readerStep () s).2
    let torn := read^[2] ((writerStep new)^[7] (read^[3] ((writerStep old)^[7] {})))
    let ready := read^[6] torn
    let seen := read ready
    (readerStep () torn).1 = .failed () ∧ torn.loads () = [] ∧
      (readerStep () ready).1 = .loaded () 4 new ∧ 4 % 2 = 0 ∧ ready.published (4 / 2) = some new ∧
      seen.loads () = [(4, new)] ∧ (∀ load ∈ seen.loads (), seen.published (load.1 / 2) = some load.2) ∧
      seen.version = seen.stores.length := by
  intro old new read torn ready seen
  have reads : ∀ n (s : BboCache Unit), Reachable {} Step s → Reachable {} Step (read^[n] s) :=
    fun n s reach => reach.iterate (fun s => ⟨_, .inr ⟨(), rfl⟩⟩) n
  have writes : ∀ snap (s : BboCache Unit), Reachable {} Step s → Reachable {} Step ((writerStep snap)^[7] s) :=
    fun snap s reach => reach.iterate (fun s => ⟨.silent, .inl ⟨snap, rfl, rfl⟩⟩) 7
  have reach : Reachable {} Step ready := reads 6 _ (reads 2 _ (writes new _ (reads 3 _ (writes old _ .start))))
  obtain ⟨whole, -⟩ := loads_never_torn reach (by decide)
  obtain ⟨-, -, exact, version⟩ := loads_never_torn (reads 1 _ reach) (by decide)
  have loaded : (readerStep () ready).1 = .loaded () 4 new := by decide
  obtain ⟨even, published⟩ := whole () 4 new seen (.inr ⟨(), Prod.ext loaded rfl⟩)
  exact ⟨by decide, by decide, loaded, even, published, by decide, exact (), version⟩

end BboCache

end Itch
