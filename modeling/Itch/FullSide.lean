import Itch.EngineSteps
import Itch.TopOfBook

namespace Itch

namespace LevelSide

variable {s : LevelSide}

/-- A side that lost its key array, as `grow` makes it lose it when 2 ^ 31 elements
double to 0, is no book side any more. -/
theorem lost_keys (none : s.keys = []) (some : 2 ≤ s.size) : ¬ s.keysHeld.Pairwise (· < ·) := by
  intro ascending
  obtain ⟨n, size⟩ := Nat.exists_eq_add_of_le' some
  have keys : s.keysHeld = 0 :: 0 :: (Arrays.segment s.level 2 n).map Level.key := by
    rw [keysHeld, levels, size, Arrays.segment_cons, Arrays.segment_cons, List.map_cons, List.map_cons]
    simp [level, none, keyAt]
  rw [keys, List.pairwise_cons] at ascending
  exact absurd (ascending.1 0 List.mem_cons_self) (by decide)

/-- A new level on a side that is full with 2 ^ 31 levels. -/
theorem add_overflow (search : LevelSearch) (wf : s.WF) (key shares : UInt32) (full : s.size = 2 ^ 31)
    (absent : s.lookup key = none) : (s.add search key shares).1.keys = [] ∧ (s.add search key shares).1.size = 2 ^ 31 + 1 ∧
      (s.add search key shares).2 = decide (s.size - s.find search key = 0) := by
  obtain ⟨miss, -⟩ : (s.find search key < s.size → keyAt s.keys (s.find search key) ≠ key) ∧ s.lookup key = none := by
    refine (find_split wf search key).resolve_left ?_
    rintro ⟨i, -, -, -, found, -⟩
    rw [absent] at found
    cases found
  have cap : s.cap = 2 ^ 31 := Nat.le_antisymm wf.cap_le (full ▸ wf.fits)
  have wrapped : (if s.cap = 0 then kInitialLevels else s.cap * 2 % 2 ^ 32) = 0 := by
    rw [cap]
    rfl
  have grown : s.grow.keys = [] := by
    change regrow s.keys s.size (if s.cap = 0 then kInitialLevels else s.cap * 2 % 2 ^ 32) = []
    rw [wrapped]
    rfl
  rw [add]
  dsimp only
  rw [if_neg fun hit => miss hit.1 hit.2, if_pos (full.trans cap.symm)]
  refine ⟨?_, ?_, rfl⟩
  · dsimp only
    split
    · rw [grown]
      rfl
    · rw [grown]
      rfl
  · change (s.size + 1) % 2 ^ 32 = 2 ^ 31 + 1
    omega

/-- A side without its key array stays so, and `reduce` takes one level at most. -/
theorem reduce_lost (search : LevelSearch) (none : s.keys = []) (key shares : UInt32) (gone : Bool) :
    (s.reduce search key shares gone).1.keys = [] ∧ s.size - 1 ≤ (s.reduce search key shares gone).1.size := by
  have shifted : ∀ pos count, shiftDown s.keys pos count = [] := by
    intro pos count
    rw [none]
    rfl
  rw [reduce]
  dsimp only
  split
  · exact ⟨none, Nat.sub_le ..⟩
  · split
    · exact ⟨none, Nat.sub_le ..⟩
    · generalize (if gone then (1 : UInt32) else 0) = leaving
      split
      · refine ⟨?_, Nat.le_refl _⟩
        split
        · exact shifted _ _
        · exact none
      · exact ⟨none, Nat.sub_le ..⟩

/-- The key of the best level is above all others, so it is not 0. -/
theorem best_ne_zero (wf : s.WF) (some : 2 ≤ s.size) : ∃ l, s.best = Option.some l ∧ l.key ≠ 0 := by
  refine ⟨s.level (s.size - 1), ?_, ?_⟩
  · rw [best_eq, empty, decide_eq_false (by omega)]
    rfl
  · intro zero
    have above := wf.ascending 0 (s.size - 1) (by omega) (by omega)
    change keyAt s.keys (s.size - 1) = 0 at zero
    rw [zero] at above
    exact absurd above (UInt32.not_lt.mpr (UInt32.zero_le))

/-- A new level under those of a full side, whose keys are above 1: the best level is
lost and not reported. -/
theorem add_below_full (search : LevelSearch) (wf : s.WF) (shares : UInt32) (full : s.size = 2 ^ 31)
    (zero : s.lookup 0 = none) (one : s.lookup 1 = none) :
    (s.add search 1 shares).2 = false ∧ ∃ l, (s.add search 1 shares).1.best = some l ∧ l.key = 0 := by
  obtain ⟨none, size, flag⟩ := add_overflow search wf 1 shares full one
  constructor
  · rw [flag, decide_eq_false]
    intro last
    have bound := wf.find_spec search 1
    have below := bound.below 0 (by omega)
    have first : s.level 0 ∈ s.levels := Arrays.mem_segment.mpr ⟨0, by omega, by omega, rfl⟩
    have key : (s.level 0).key = 0 := UInt32.toNat_inj.mp (Nat.lt_one_iff.mp (UInt32.lt_iff_toNat_lt.mp below))
    have found := wf.lookup_level first
    rw [key, zero] at found
    cases found
  · refine ⟨(s.add search 1 shares).1.level ((s.add search 1 shares).1.size - 1), ?_, ?_⟩
    · rw [best_eq, empty, decide_eq_false (by omega)]
      rfl
    · change keyAt (s.add search 1 shares).1.keys _ = 0
      rw [none]
      rfl

end LevelSide

namespace BookEngine

theorem tracks_run (B : Build) (expectedOrders : Nat) {calls : List EngineCall}
    (allowed : NaiveEngine.AllowsAll {} calls) (fit : NaiveEngine.FitsAll {} calls) :
    ((create B expectedOrders).run calls).Tracks (NaiveEngine.run {} calls) ∧
      (NaiveEngine.run {} calls).live.entries.length < 2 ^ 32 := by
  refine @Runs.Every.simulates _ _ _ _ (fun e c => (call e c).1) _
    (fun n e => e.Tracks n ∧ n.live.entries.length < 2 ^ 32) ?_ _ _ _
    ⟨create_tracks B expectedOrders, by decide⟩ (allowed.and fit)
  rintro n e c ⟨tracks, few⟩ ⟨⟨allowed, less⟩, fit⟩
  exact ⟨tracks.call (fitCounts_of_length few) allowed fit, less⟩

section Ascending

variable (first : Nat)

/-- A bid of one share at a price that goes up with its reference. -/
def bidCall (i : Nat) : EngineCall := .add 0 (UInt64.ofNat i) (ascii 'B') 1 (UInt32.ofNat (first + i))

def bidOrder (i : Nat) : Order :=
  { ref := UInt64.ofNat i, price := UInt32.ofNat (first + i), shares := 1, side := ascii 'B' }

/-- Bids at `n` ascending prices. -/
def ascendingBids (n : Nat) : List EngineCall := (List.range n).map (bidCall first)

theorem ascendingBids_zero : ascendingBids first 0 = [] := rfl

theorem ascendingBids_succ (n : Nat) : ascendingBids first (n + 1) = ascendingBids first n ++ [bidCall first n] := by
  rw [ascendingBids, List.range_succ, List.map_append]
  rfl

variable {first}

theorem bid_fresh {n : Nat} (below : n < 2 ^ 32) {live : LiveOrders}
    (held : live.entries = ((List.range n).map (bidOrder first)).reverse) : live.find? (UInt64.ofNat n) = none := by
  refine KeyedList.find?_eq_none.mpr fun o member same => ?_
  rw [held, List.mem_reverse, List.mem_map] at member
  obtain ⟨i, inside, rfl⟩ := member
  have less := List.mem_range.mp inside
  have refs := congrArg UInt64.toNat same
  change (UInt64.ofNat i).toNat = _ at refs
  rw [UInt64.toNat_ofNat', UInt64.toNat_ofNat'] at refs
  omega

theorem naive_ascendingBids {n : Nat} (below : n ≤ 2 ^ 32) :
    (NaiveEngine.run {} (ascendingBids first n)).live.entries = ((List.range n).map (bidOrder first)).reverse := by
  induction n with
  | zero => rfl
  | succ n ih =>
    have held := ih (Nat.le_of_succ_le below)
    have inserted := @KeyedList.insert_entries _ _ Order.ref _ _ (bidOrder first n) (bid_fresh below held)
    rw [ascendingBids_succ, NaiveEngine.run, List.foldl_append, List.range_succ, List.map_append, List.reverse_append]
    exact inserted.trans (congrArg _ held)

theorem naive_length {n : Nat} (below : n ≤ 2 ^ 32) :
    (NaiveEngine.run {} (ascendingBids first n)).live.entries.length = n := by
  rw [naive_ascendingBids below, List.length_reverse, List.length_map, List.length_range]

theorem naive_next (n : Nat) : (NaiveEngine.run {} (ascendingBids first n)).apply (bidCall first n) =
    NaiveEngine.run {} (ascendingBids first (n + 1)) := by
  rw [ascendingBids_succ, NaiveEngine.run, NaiveEngine.run, List.foldl_append]
  rfl

theorem ascendingBids_allowed {n : Nat} (below : n < 2 ^ 32) : NaiveEngine.AllowsAll {} (ascendingBids first n) := by
  induction n with
  | zero => exact trivial
  | succ n ih =>
    have length := @naive_length first _ (Nat.le_of_lt below)
    rw [ascendingBids_succ]
    refine Runs.every_append.mpr ⟨ih (Nat.lt_of_succ_lt below), ?_, ?_⟩
    · exact bid_fresh (Nat.lt_of_succ_lt below) (naive_ascendingBids (by omega))
    · rw [← naive_next] at length
      exact lt_of_eq_of_lt length below

theorem ascendingBids_fit {n : Nat} (below : n ≤ 2 ^ 31) : NaiveEngine.FitsAll {} (ascendingBids first n) := by
  induction n with
  | zero => exact trivial
  | succ n ih =>
    have length := @naive_length first (n + 1) (by omega)
    rw [← naive_next] at length
    rw [ascendingBids_succ]
    exact Runs.every_append.mpr ⟨ih (Nat.le_of_succ_le below), fitLevels_of_length (length.trans_le below)⟩

theorem bid_keys (n : Nat) : sideKeys ((List.range n).map (bidOrder first)).reverse 0 true =
    ((List.range n).map fun i => UInt32.ofNat (first + i)).reverse := by
  have all : ∀ o ∈ ((List.range n).map (bidOrder first)).reverse, o.locate = 0 ∧ o.bid = true := by
    intro o member
    obtain ⟨i, -, rfl⟩ := List.mem_map.mp (List.mem_reverse.mp member)
    exact ⟨rfl, rfl⟩
  rw [sideKeys, List.filter_eq_self.mpr fun o member => decide_eq_true (all o member), List.map_reverse, List.map_map]
  rfl

theorem ofNat_price {i j : Nat} (left : i < 2 ^ 32) (right : j < 2 ^ 32) (same : UInt32.ofNat i = UInt32.ofNat j) : i = j := by
  have nats := congrArg UInt32.toNat same
  rw [UInt32.toNat_ofNat', UInt32.toNat_ofNat'] at nats
  omega

/-- The side that up to 2 ^ 31 ascending bids make: a level for each of them, none elsewhere. -/
theorem ascendingBids_side (B : Build) (expectedOrders : Nat) {n : Nat} (below : n ≤ 2 ^ 31) (prices : first + n ≤ 2 ^ 32) :
    (((create B expectedOrders).run (ascendingBids first n)).sides 0 true).WF ∧
      (((create B expectedOrders).run (ascendingBids first n)).sides 0 true).size = n ∧
      ∀ k < 2 ^ 32, k < first ∨ first + n ≤ k →
        (((create B expectedOrders).run (ascendingBids first n)).sides 0 true).lookup (UInt32.ofNat k) = none := by
  obtain ⟨tracks, -⟩ := tracks_run B expectedOrders (@ascendingBids_allowed first n (by omega)) (ascendingBids_fit below)
  have keys := @bid_keys first n
  rw [← naive_ascendingBids (by omega)] at keys
  refine ⟨tracks.sides.wf 0 true, ?_, ?_⟩
  · have distinct : ((List.range n).map fun i => UInt32.ofNat (first + i)).reverse.Nodup := by
      refine List.nodup_reverse.mpr (List.Nodup.map_on ?_ List.nodup_range)
      intro i left j right same
      rw [List.mem_range] at left right
      have equal := ofNat_price (by omega) (by omega) same
      omega
    rw [tracks.sides.size_eq, keys, distinct.dedup, List.length_reverse, List.length_map, List.length_range]
  · intro k price outside
    by_contra present
    have member := mem_sideKeys.mpr ((tracks.sides.mem_keysHeld 0 true _).mp (LevelSide.mem_keysHeld.mpr present))
    rw [keys, List.mem_reverse, List.mem_map] at member
    obtain ⟨i, inside, same⟩ := member
    have less := List.mem_range.mp inside
    have equal := ofNat_price (by omega) price same
    omega

/-- The bid after the first 2 ^ 31 loses the key array of its side. -/
theorem bid_overflow (B : Build) (expectedOrders : Nat) {n : Nat} (full : n = 2 ^ 31) :
    (((create B expectedOrders).run (ascendingBids 0 (n + 1))).sides 0 true).keys = [] ∧
      (((create B expectedOrders).run (ascendingBids 0 (n + 1))).sides 0 true).size = 2 ^ 31 + 1 := by
  obtain ⟨wf, size, absent⟩ := @ascendingBids_side 0 B expectedOrders n (by omega) (by omega)
  have last : (create B expectedOrders).run (ascendingBids 0 (n + 1)) =
      (((create B expectedOrders).run (ascendingBids 0 n)).add (bidOrder 0 n).locate (bidOrder 0 n).ref
        (bidOrder 0 n).side (bidOrder 0 n).shares (bidOrder 0 n).price).1 := by
    rw [ascendingBids_succ, BookEngine.run, List.foldl_append]
    rfl
  obtain ⟨none, more, -⟩ := LevelSide.add_overflow B.search wf (bidOrder 0 n).key (bidOrder 0 n).shares (size.trans full)
    (absent (0 + n) (by omega) (by omega))
  rw [last, (add_effect _ (bidOrder 0 n)).2.1]
  exact ⟨none, more⟩

end Ascending

-- too long a run to unfold it
attribute [irreducible] ascendingBids

end BookEngine

end Itch
