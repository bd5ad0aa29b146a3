import Itch.CrowdedLevel
import Itch.DepthProfiler

namespace Itch

open Arrays

namespace LevelSide

variable {s t : LevelSide}

theorem countAtOrAbove_eq (s : LevelSide) (key : UInt32) :
    countAtOrAbove s.keys s.size key = s.levels.countP fun l => key ≤ l.key := by
  rw [levels, Arrays.segment, List.countP_map, countAtOrAbove]
  refine List.countP_congr fun i _ => ?_
  rw [Function.comp_apply, Nat.zero_add]
  rfl

/-- What a change of one level does to the count. -/
theorem Touch.count {at' : UInt32} {before after : Option Level} {low high : List Level}
    (touch : s.Touch t at' before after low high) (key : UInt32) :
    countAtOrAbove s.keys s.size key + after.toList.countP (fun l => key ≤ l.key) =
      countAtOrAbove t.keys t.size key + before.toList.countP (fun l => key ≤ l.key) := by
  rw [countAtOrAbove_eq, countAtOrAbove_eq, touch.old, touch.new]
  simp only [List.countP_append]
  omega

theorem size_ne_zero {key : UInt32} (present : s.lookup key ≠ none) : s.size ≠ 0 := by
  intro none
  refine present ?_
  rw [lookup, levels, none]
  rfl

end LevelSide

namespace DepthProfiler

variable {B : Build}

/-- A recorded value is right for what the engine does: the count of a search, 0 for an
insertion into an empty side, anything for an execute or cancel that takes nothing. -/
inductive Seen : Nat → SearchEvent → Prop
  | call (keys : List UInt32) (n : Nat) (key : UInt32) : Seen (countAtOrAbove keys n key) (.call keys n key)
  | insertEmpty : Seen 0 .insertEmpty
  | nothingTaken (ge : Nat) : Seen ge .nothingTaken

section Side

variable {s : LevelSide}

theorem seen_insert (key : UInt32) : Seen (countAtOrAbove s.keys s.size key) (s.insertEvent key) := by
  unfold LevelSide.insertEvent
  split
  · exact .call ..
  · rename_i none
    rw [not_not.mp none]
    exact .insertEmpty

theorem seen_reduce (sorted : Ascending s.keys s.size) (some : s.size ≠ 0) (key : UInt32) :
    List.Forall₂ Seen [keysAtOrAbove s key] (s.reduceEvents key) := by
  rw [LevelSide.reduceEvents, if_neg some, keysAtOrAbove_eq sorted]
  exact .cons (.call ..) .nil

/-- The prediction is the count on the side that the order has left. -/
theorem keysAfterRemoval_eq (wf : s.WF) {t : LevelSide} {l : Level} {key shares : UInt32} {low high : List Level}
    (found : s.lookup key = some l) (touch : s.Touch t key (some l) (Level.leave key shares true l) low high)
    (newKey : UInt32) : keysAfterRemoval s key newKey = countAtOrAbove t.keys t.size newKey := by
  have count := touch.count newKey
  have bound : countAtOrAbove s.keys s.size newKey ≤ 2 ^ 31 := by
    rw [countAtOrAbove]
    exact List.countP_le_length.trans (List.length_range.le.trans (wf.fits.trans wf.cap_le))
  have old : [l].countP (fun l => newKey ≤ l.key) = if newKey ≤ key then 1 else 0 := by
    rw [List.countP_singleton, touch.oldKey l rfl]
    simp only [decide_eq_true_eq]
  rw [Option.toList_some, old] at count
  rw [keysAfterRemoval, ordersAtLevel_levelOf wf found, keysAtOrAbove_eq wf.sorted]
  by_cases single : l.orders = 1
  · -- the level goes with its last order
    have gone : Level.leave key shares true l = none := by
      rw [Level.leave, if_pos rfl, single]
      rfl
    rw [gone, Option.toList_none, List.countP_nil] at count
    by_cases above : newKey ≤ key
    · rw [if_pos ⟨single, above⟩]
      rw [if_pos above] at count
      omega
    · rw [if_neg fun both => above both.2]
      rw [if_neg above] at count
      omega
  · -- the level stays, with its key
    have stays : l.orders - 1 ≠ 0 := fun zero => single ((UInt32.sub_eq_iff_eq_add.mp zero).trans (UInt32.zero_add _))
    have kept : ∃ l', Level.leave key shares true l = some l' := by
      rw [Level.leave, if_pos rfl, if_neg stays]
      exact ⟨_, rfl⟩
    obtain ⟨l', after⟩ := kept
    have new : [l'].countP (fun l => newKey ≤ l.key) = if newKey ≤ key then 1 else 0 := by
      rw [List.countP_singleton, touch.newKey l' after]
      simp only [decide_eq_true_eq]
    rw [after, Option.toList_some, new] at count
    rw [if_neg fun both => single both.1]
    omega

end Side

section Known

variable {e : BookEngine B} {n : NaiveEngine} (tracks : e.Tracks n) {ref : UInt64} {p : e.orders.Pointer}
  (found : e.orders.find ref = some p) (split : n.live.entries.Perm (p.order :: (n.live.erase ref).entries))
include tracks split

theorem measured_level : List.Forall₂ Seen [measure e p.order.locate p.order.side p.order.price]
    ((e.sides.get p.order).reduceEvents p.order.key) := by
  have same := tracks.sides.perm split
  have present : (e.sides.get p.order).lookup p.order.key ≠ none := by
    intro none
    have level := same.levels p.order.locate p.order.bid p.order.key
    rw [restingAt_own] at level
    exact List.cons_ne_nil _ _ (summary_eq_none.mp (level.symm.trans none))
  rw [measure, BookEngine.sides_get]
  exact seen_reduce (same.wf p.order.locate p.order.bid).sorted (LevelSide.size_ne_zero present) p.order.key

include found

/-- The side without the old order has the predicted count. -/
theorem measured_replaced (price : UInt32) : measureReplaced e p.order price =
    countAtOrAbove ((e.remove ref).1.sides.get p.order).keys ((e.remove ref).1.sides.get p.order).size
      (OrderBook.keyFor p.order.side price) := by
  have same := tracks.sides.perm split
  have wf := same.wf p.order.locate p.order.bid
  obtain ⟨-, sides, -, -⟩ := BookEngine.remove_effect e found
  obtain ⟨low, high, -, touch, -⟩ := same.reduced B.search p.order.shares true
  have level := same.levels p.order.locate p.order.bid p.order.key
  rw [restingAt_own, summary_cons_eq] at touch level
  rw [sides, Sides.get, Sides.set, if_pos ⟨rfl, rfl⟩, measureReplaced, BookEngine.sides_get]
  exact keysAfterRemoval_eq wf level touch _

end Known

section Message

variable {e : BookEngine B} {n : NaiveEngine} (tracks : e.Tracks n)
include tracks

theorem measured_add (o : Order) :
    List.Forall₂ Seen [measure e o.locate o.side o.price] (e.searches (.add o.locate o.ref o.side o.shares o.price)) := by
  have count := keysAtOrAbove_eq (tracks.sides.wf o.locate o.bid).sorted o.key
  rw [BookEngine.searches_add, measure, BookEngine.sides_get]
  exact .cons (count ▸ seen_insert o.key) .nil

theorem measured_reduce (ref : UInt64) (shares : UInt32) :
    List.Forall₂ Seen (measureOrder e ref) (e.searches (.reduce ref shares)) := by
  rw [measureOrder]
  rcases tracks.known ref with ⟨missing, -⟩ | ⟨p, found, -, split⟩
  · rw [missing, (e.searches_unknown missing 0 shares 0).1]
    exact .nil
  · rw [found, BookEngine.searches_reduce found]
    dsimp only
    split
    · exact .cons (.nothingTaken _) .nil
    · exact measured_level tracks split

theorem measured_remove (ref : UInt64) : List.Forall₂ Seen (measureOrder e ref) (e.searches (.remove ref)) := by
  rw [measureOrder]
  rcases tracks.known ref with ⟨missing, -⟩ | ⟨p, found, -, split⟩
  · rw [missing, (e.searches_unknown missing 0 0 0).2.1]
    exact .nil
  · rw [found, BookEngine.searches_remove found]
    exact measured_level tracks split

/-- What is recorded for a message is, in order, what the engine meets as it applies it. -/
theorem measured_seen (m : BookMessage) : List.Forall₂ Seen (measured e m) (e.searches m.call) := by
  cases m with
  | addOrder m => exact measured_add tracks ⟨m.ref, m.price, m.shares, m.locate, m.side⟩
  | addOrderMpid m => exact measured_add tracks ⟨m.ref, m.price, m.shares, m.locate, m.side⟩
  | orderExecuted m => exact measured_reduce tracks m.ref m.executedShares
  | orderExecutedWithPrice m => exact measured_reduce tracks m.ref m.executedShares
  | orderCancel m => exact measured_reduce tracks m.ref m.cancelledShares
  | orderDelete m => exact measured_remove tracks m.ref
  | orderReplace m =>
    rw [measured, BookMessage.call]
    rcases tracks.known m.originalRef with ⟨missing, -⟩ | ⟨p, found, -, split⟩
    · rw [missing, (e.searches_unknown missing m.newRef m.shares m.price).2.2]
      exact .nil
    · rw [found, BookEngine.searches_replace found]
      dsimp only
      rw [measured_replaced tracks found split]
      exact List.rel_append (measured_level tracks split) (.cons (seen_insert _) .nil)

end Message

/-! Runs of messages. -/

/-- What a message records. -/
def values (p : DepthProfiler B) : Message → List Nat
  | .book m => measured p.builder.engine m
  | .stockDirectory _ => []
  | .systemEvent _ => []
  | .other _ => []

/-- What the engine has to do with the level search as it applies a message. -/
def events (p : DepthProfiler B) : Message → List SearchEvent
  | .book m => p.builder.engine.searches m.call
  | .stockDirectory _ => []
  | .systemEvent _ => []
  | .other _ => []

/-- The recorded values of a run, a list for each message. -/
def recorded (p : DepthProfiler B) (ms : List Message) : List (List Nat) := Runs.outputs on values p ms

def searched (p : DepthProfiler B) (ms : List Message) : List (List SearchEvent) := Runs.outputs on events p ms

variable {p : DepthProfiler B} {n : NaiveEngine}

theorem values_seen (tracks : p.builder.engine.Tracks n) (m : Message) : List.Forall₂ Seen (p.values m) (p.events m) := by
  cases m with
  | book m => exact measured_seen tracks m
  | stockDirectory m => exact .nil
  | systemEvent m => exact .nil
  | other q => exact .nil

theorem on_tracks (tracks : p.builder.engine.Tracks n) (few : FitCounts n.live.entries) {m : Message} (fresh : n.Fresh m)
    (fit : FitLevels (n.on m).live.entries) : (p.on m).builder.engine.Tracks (n.on m) := by
  cases m with
  | book m => exact tracks.on (nullSink B) few fresh fit
  | stockDirectory m => exact tracks.prepare m.locate
  | systemEvent m => exact tracks
  | other q => exact tracks

/-- The histogram of a run counts its recorded values. -/
theorem recorded_hist (ms : List Message) : (ms.foldl on p).total = p.total + (recorded p ms).flatten.length ∧
    ∀ b < p.hist.length, (ms.foldl on p).hist.getD b 0 = p.hist.getD b 0 + (recorded p ms).flatten.countP (bucket · = b) := by
  induction ms generalizing p with
  | nil => exact ⟨rfl, fun b _ => rfl⟩
  | cons m ms ih =>
    have step : (p.on m).total = p.total + (p.values m).length ∧ (p.on m).hist.length = p.hist.length ∧
        ∀ b < p.hist.length, (p.on m).hist.getD b 0 = p.hist.getD b 0 + (p.values m).countP (bucket · = b) := by
      cases m with
      | book m => exact record_foldl p (measured p.builder.engine m)
      | stockDirectory m => exact ⟨rfl, rfl, fun b _ => rfl⟩
      | systemEvent m => exact ⟨rfl, rfl, fun b _ => rfl⟩
      | other q => exact ⟨rfl, rfl, fun b _ => rfl⟩
    obtain ⟨total, length, hist⟩ := step
    obtain ⟨total', hist'⟩ := @ih (p.on m)
    have flat : (recorded p (m :: ms)).flatten = p.values m ++ (recorded (p.on m) ms).flatten := rfl
    refine ⟨?_, fun b inside => ?_⟩
    · rw [List.foldl_cons, total', total, flat, List.length_append, Nat.add_assoc]
    · rw [List.foldl_cons, hist' b (length.symm ▸ inside), hist b inside, flat, List.countP_append, Nat.add_assoc]

/-- In every run without a reference added while it is live, in which the live orders fit
the arrays and counts of their levels, the profiler records what each search of the engine
meets, and its histogram counts that. A search costs as many chunks as it says. -/
theorem profiles (B : Build) (expectedOrders : TableSize B.group) {ms : List Message}
    (fresh : Runs.Every NaiveEngine.on NaiveEngine.Fresh {} ms)
    (fits : Runs.Every NaiveEngine.on (fun n m => (n.on m).Fits) {} ms) :
    (List.Forall₂ (List.Forall₂ Seen) (recorded (create (.create B expectedOrders)) ms)
        (searched (create (.create B expectedOrders)) ms) ∧
      (ms.foldl on (create (.create B expectedOrders))).total =
        (recorded (create (.create B expectedOrders)) ms).flatten.length ∧
      ∀ b ≤ kMax, (ms.foldl on (create (.create B expectedOrders))).hist.getD b 0 =
        (recorded (create (.create B expectedOrders)) ms).flatten.countP (bucket · = b)) ∧
    ∀ (level : SimdLevel) (chunks n : Nat) (keys : List UInt32) (key : UInt32), level.vector → n / 8 ≤ chunks →
      Ascending keys n → ((Kernel.fromBack level).reads chunks n key).log keys =
        comparedLanes n (chunksFor (countAtOrAbove keys n key)) := by
  have related := @Runs.Every.outputs_related _ _ _ _ _ NaiveEngine.on (on (B := B)) _
    (fun n p => p.builder.engine.Tracks n ∧ FitCounts n.live.entries) (List.Forall₂ Seen) values events
    (fun n p m holds ok => ⟨on_tracks holds.1 holds.2 ok.1 ok.2.1, ok.2.2⟩) (fun n p m holds _ => values_seen holds.1 m) {}
    (create (.create B expectedOrders)) ms ⟨BookEngine.create_tracks B expectedOrders, NaiveEngine.empty_fits.2⟩
    (fresh.and fits)
  obtain ⟨total, hist⟩ := @recorded_hist B (create (.create B expectedOrders)) ms
  refine ⟨⟨related, total.trans (Nat.zero_add _), ?_⟩, ?_⟩
  · intro b le
    have empty : (create (BookEngine.create B expectedOrders)).hist.getD b 0 = 0 := by
      rw [create, List.getD_eq_getElem?_getD, List.getElem?_replicate]
      split <;> rfl
    have length : (create (BookEngine.create B expectedOrders)).hist.length = kMax + 1 := List.length_replicate
    have counted := hist b (by omega)
    rwa [empty, Nat.zero_add] at counted
  · intro level chunks n keys key vector uncapped sorted
    exact compared_chunks vector uncapped sorted key

/-- A bid at each of two prices, the better of which is replaced by one below both. -/
def replacedRun : List Message :=
  [.book (.addOrder { locate := 1, ref := 1, side := ascii 'B', shares := 5, price := 10 }),
    .book (.addOrder { locate := 1, ref := 2, side := ascii 'B', shares := 5, price := 20 }),
    .book (.orderReplace { originalRef := 2, newRef := 3, shares := 5, price := 5 })]

theorem profiles_sample :
    List.Forall₂ (List.Forall₂ Seen) (recorded (create (.create ⟨.avx2, 4⟩ 4)) replacedRun)
      (searched (create (.create ⟨.avx2, 4⟩ 4)) replacedRun) ∧
    ((Kernel.fromBack .avx2).reads 0 3 5).log [2, 5, 9, 0, 0, 0, 0, 0] = comparedLanes 3 1 := by
  have profiled := @profiles ⟨.avx2, 4⟩ ⟨4, by decide, by decide⟩ replacedRun (by decide) (by decide)
  have sorted : ∀ j < 3, ∀ i ≤ j, keyAt [2, 5, 9, 0, 0, 0, 0, 0] i ≤ keyAt [2, 5, 9, 0, 0, 0, 0, 0] j := by decide
  exact ⟨profiled.1.1, profiled.2 .avx2 0 3 [2, 5, 9, 0, 0, 0, 0, 0] 5 nofun (by decide)
    fun i j before inside => sorted j inside i before⟩

section Crowded

def crowdAdd (i : Nat) : Message :=
  .book (.addOrder { locate := (crowdOrder i).locate, ref := (crowdOrder i).ref, side := (crowdOrder i).side,
                     shares := (crowdOrder i).shares, price := (crowdOrder i).price })

def crowdDelete (i : Nat) : Message := .book (.orderDelete { ref := (crowdOrder i).ref })

/-- `n` orders at one price, the first two of which are then deleted. -/
def crowdedRun (n : Nat) : List Message := (List.range n).map crowdAdd ++ [crowdDelete 0] ++ [crowdDelete 1]

theorem crowdAdd_foldl {σ : Type} (step : σ → Message → σ) (s : σ) (n : Nat) :
    ((List.range (n + 1)).map crowdAdd).foldl step s = step (((List.range n).map crowdAdd).foldl step s) (crowdAdd n) := by
  rw [List.range_succ, List.map_append, List.foldl_append]
  rfl

theorem crowd_engine (p : DepthProfiler B) (n : Nat) :
    (((List.range n).map crowdAdd).foldl on p).builder.engine = p.builder.engine.run (crowdCalls n) := by
  induction n with
  | zero =>
    rw [crowdCalls_zero]
    rfl
  | succ n ih =>
    rw [crowdAdd_foldl, on_engine, ih, crowdCalls_succ, BookEngine.run, BookEngine.run, List.foldl_append]
    rfl

theorem crowd_naive (n : Nat) :
    ((List.range n).map crowdAdd).foldl NaiveEngine.on {} = NaiveEngine.run {} (crowdCalls n) := by
  induction n with
  | zero =>
    rw [crowdCalls_zero]
    rfl
  | succ n ih =>
    rw [crowdAdd_foldl, ih, crowdCalls_succ, NaiveEngine.run, NaiveEngine.run, List.foldl_append]
    rfl

theorem crowdedRun_fresh {n : Nat} (small : n ≤ 2 ^ 63) : Runs.Every NaiveEngine.on NaiveEngine.Fresh {} (crowdedRun n) := by
  have adds : Runs.Every NaiveEngine.on NaiveEngine.Fresh {} ((List.range n).map crowdAdd) := by
    induction n with
    | zero => exact trivial
    | succ n ih =>
      rw [List.range_succ, List.map_append]
      refine Runs.every_append.mpr ⟨ih (by omega), ?_⟩
      rw [crowd_naive]
      exact crowd_fresh (crowd_held rfl (Nat.le_of_succ_le small)) (by omega)
  exact Runs.every_append.mpr ⟨Runs.every_append.mpr ⟨adds, trivial⟩, trivial⟩

/-- Once the level is gone with the first order, the profiler records a search for the second
that the engine does not make. -/
theorem collapsed_unseen {e : BookEngine B} {n : NaiveEngine} (tracks : e.Tracks n) {k : Nat} (wraps : k % 2 ^ 32 = 0)
    (small : k < 2 ^ 63) (some : k ≠ 0) (held : n.live.entries = crowd (k + 1)) :
    ¬ List.Forall₂ Seen (measureOrder (e.remove (crowdOrder 0).ref).1 (crowdOrder 1).ref)
      ((e.remove (crowdOrder 0).ref).1.searches (.remove (crowdOrder 1).ref)) := by
  have live : ∀ {o}, o ∈ crowd (k + 1) ↔ o ∈ e.orders.orders := by
    intro o
    rw [← held]
    exact tracks.orders.mem_iff.symm
  have first := live.mp (mem_crowd.mpr ⟨0, by omega, rfl⟩)
  have second := live.mp (mem_crowd.mpr ⟨1, by omega, rfl⟩)
  cases found : e.orders.find (crowdOrder 0).ref with
  | none => exact absurd rfl (OrderMap.find_none _ found _ first)
  | some p =>
    have gone := tracks.collapse wraps held found
    obtain ⟨left, -⟩ := BookEngine.remove_effect e found
    have stays : crowdOrder 1 ∈ (e.remove (crowdOrder 0).ref).1.orders.orders := by
      refine (List.mem_cons.mp (left.mem_iff.mp second)).resolve_left fun same => ?_
      have refs := (congrArg Order.ref same).trans (OrderMap.find_some _ found)
      exact absurd (crowd_ref (by decide) (by decide) refs) (by decide)
    cases found' : (e.remove (crowdOrder 0).ref).1.orders.find (crowdOrder 1).ref with
    | none => exact absurd rfl (OrderMap.find_none _ found' _ stays)
    | some q =>
      have here := crowd_level (live.mpr (OrderMap.pointer_mem _ p))
      have there := crowd_level (live.mpr (left.mem_iff.mpr (List.mem_cons_of_mem _ (OrderMap.pointer_mem _ q))))
      have empty : ((e.remove (crowdOrder 0).ref).1.sides.get q.order).size = 0 := by
        rw [Sides.get, there.1, there.2.2.1]
        rwa [Sides.get, here.1, here.2.2.1] at gone
      rw [measureOrder, found', BookEngine.searches_remove found', LevelSide.reduceEvents, if_pos empty]
      intro seen
      cases seen

theorem crowdedRun_unseen (B : Build) (expectedOrders : Nat) {k : Nat} (wraps : k % 2 ^ 32 = 0) (small : k < 2 ^ 63)
    (some : k ≠ 0) : ¬ List.Forall₂ (List.Forall₂ Seen) (recorded (create (.create B expectedOrders)) (crowdedRun (k + 1)))
      (searched (create (.create B expectedOrders)) (crowdedRun (k + 1))) := by
  intro seen
  have last := Runs.outputs_last seen
  have tracks := BookEngine.crowd_tracks (BookEngine.create_tracks B expectedOrders) rfl (n := k + 1) (by omega)
  have held := crowd_held (m := {}) rfl (n := k + 1) (by omega)
  have engine := on_engine ((((List.range (k + 1)).map crowdAdd).foldl on (create (.create B expectedOrders)))) (crowdDelete 0)
  rw [crowd_engine] at engine
  rw [List.foldl_append] at last
  change List.Forall₂ Seen (measureOrder (on _ (crowdDelete 0)).builder.engine (crowdOrder 1).ref)
    ((on _ (crowdDelete 0)).builder.engine.searches (.remove (crowdOrder 1).ref)) at last
  rw [engine] at last
  exact collapsed_unseen tracks wraps small some held last

-- too long a run to unfold it
attribute [irreducible] crowdedRun

/-- With 2 ^ 32 + 1 orders at one price the profiler sees more than the kernel. -/
theorem crowded_unseen : Runs.Every NaiveEngine.on NaiveEngine.Fresh {} (crowdedRun (2 ^ 32 + 1)) ∧
    ¬ List.Forall₂ (List.Forall₂ Seen) (recorded (create (.create ⟨.avx2, 4⟩ 0)) (crowdedRun (2 ^ 32 + 1)))
      (searched (create (.create ⟨.avx2, 4⟩ 0)) (crowdedRun (2 ^ 32 + 1))) :=
  ⟨crowdedRun_fresh (by omega), crowdedRun_unseen ⟨.avx2, 4⟩ 0 (k := 2 ^ 32) (by omega) (by omega) (by omega)⟩

end Crowded

end DepthProfiler

end Itch
