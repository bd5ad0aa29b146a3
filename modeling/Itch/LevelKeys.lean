import Itch.EngineLevels
import Mathlib.Data.List.Dedup

namespace Itch

open Arrays

namespace LevelSide

variable {s : LevelSide}

/-- The keys of the levels, best last. -/
def keysHeld (s : LevelSide) : List UInt32 := s.levels.map Level.key

theorem keysHeld_length : s.keysHeld.length = s.size := by
  rw [keysHeld, List.length_map, levels, segment_length]

theorem WF.keysHeld_ascending (wf : s.WF) : s.keysHeld.Pairwise (· < ·) := by
  rw [keysHeld, levels, Arrays.segment, List.map_map, List.pairwise_map]
  refine List.pairwise_lt_range.imp_of_mem fun {i j} _ inside before => ?_
  simp only [Function.comp_apply, Nat.zero_add]
  exact wf.ascending i j before (List.mem_range.mp inside)

theorem WF.keysHeld_nodup (wf : s.WF) : s.keysHeld.Nodup := wf.keysHeld_ascending.imp UInt32.ne_of_lt

theorem mem_keysHeld {key : UInt32} : key ∈ s.keysHeld ↔ s.lookup key ≠ none := by
  rw [keysHeld, List.mem_map, lookup, KeyedSplit.lookup, Ne, List.find?_eq_none]
  simp only [decide_eq_true_eq]
  push Not
  exact Iff.rfl

/-- A level is the one that its key finds. -/
theorem WF.lookup_level (wf : s.WF) {l : Level} (member : l ∈ s.levels) : s.lookup l.key = some l := by
  obtain ⟨l', found⟩ := Option.ne_none_iff_exists'.mp (mem_keysHeld.mp (List.mem_map_of_mem member))
  have member' := List.mem_of_find?_eq_some found
  have key : l'.key = l.key := by simpa using List.find?_some found
  rw [found, List.inj_on_of_nodup_map wf.keysHeld_nodup member' member key]

theorem WF.mem_levels (wf : s.WF) (l : Level) : l ∈ s.levels ↔ s.lookup l.key = some l :=
  ⟨wf.lookup_level, fun found => List.mem_of_find?_eq_some found⟩

/-- The levels are determined by what is found at each key. -/
theorem WF.levels_ext {t : LevelSide} (wf : s.WF) (wf' : t.WF) (same : ∀ key, s.lookup key = t.lookup key) :
    s.levels = t.levels := by
  have perm : s.levels.Perm t.levels := by
    refine (List.perm_ext_iff_of_nodup wf.keysHeld_nodup.of_map wf'.keysHeld_nodup.of_map).mpr fun l => ?_
    rw [wf.mem_levels, wf'.mem_levels, same]
  have ascending := List.pairwise_map.mp wf.keysHeld_ascending
  have ascending' := List.pairwise_map.mp wf'.keysHeld_ascending
  exact perm.eq_of_pairwise (fun a b _ _ before after => absurd after (UInt32.lt_asymm before)) ascending ascending'

end LevelSide

/-- The keys of all orders on one side of a book. -/
def sideKeys (live : List Order) (locate : UInt16) (bid : Bool) : List UInt32 :=
  (live.filter fun o => o.locate = locate ∧ o.bid = bid).map Order.key

theorem sideKeys_own (o : Order) (live : List Order) :
    sideKeys (o :: live) o.locate o.bid = o.key :: sideKeys live o.locate o.bid := by
  rw [sideKeys, List.filter_cons_of_pos (by simp)]
  rfl

theorem mem_sideKeys {live : List Order} {locate : UInt16} {bid : Bool} {key : UInt32} :
    key ∈ sideKeys live locate bid ↔ restingAt live locate bid key ≠ [] := by
  constructor
  · intro member
    obtain ⟨o, resting, rfl⟩ := List.mem_map.mp member
    obtain ⟨kept, rfl, rfl⟩ : o ∈ live ∧ o.locate = locate ∧ o.bid = bid := by simpa using resting
    exact List.ne_nil_of_mem (List.mem_filter.mpr ⟨kept, by simp⟩)
  · intro some
    obtain ⟨o, resting⟩ := List.exists_mem_of_ne_nil _ some
    obtain ⟨kept, rfl, rfl, rfl⟩ : o ∈ live ∧ o.locate = locate ∧ o.bid = bid ∧ o.key = key := by
      simpa [restingAt] using resting
    exact List.mem_map.mpr ⟨o, List.mem_filter.mpr ⟨kept, by simp⟩, rfl⟩

/-- Whether the live orders of every side fit its level arrays, which double up to 2 ^ 31 elements. -/
def FitLevels (live : List Order) : Prop :=
  ∀ o ∈ live, (sideKeys live o.locate o.bid).dedup.length ≤ 2 ^ 31

instance (live : List Order) : Decidable (FitLevels live) :=
  inferInstanceAs (Decidable (∀ o ∈ live, (sideKeys live o.locate o.bid).dedup.length ≤ 2 ^ 31))

theorem fitLevels_of_length {live : List Order} (few : live.length ≤ 2 ^ 31) : FitLevels live := by
  intro o member
  refine Nat.le_trans ((List.dedup_sublist _).length_le) (Nat.le_trans ?_ few)
  rw [sideKeys, List.length_map]
  exact List.length_filter_le ..

namespace Sides.Match

variable {sides : Sides} {live : List Order} (same : sides.Match live)
include same

theorem mem_keysHeld (locate : UInt16) (bid : Bool) (key : UInt32) :
    key ∈ (sides locate bid).keysHeld ↔ restingAt live locate bid key ≠ [] := by
  rw [LevelSide.mem_keysHeld, same.levels, Ne, summary_eq_none]

/-- A side has one level for each price that its orders have. -/
theorem keysHeld_perm (locate : UInt16) (bid : Bool) :
    (sides locate bid).keysHeld.Perm (sideKeys live locate bid).dedup := by
  refine (List.perm_ext_iff_of_nodup (same.wf locate bid).keysHeld_nodup (List.nodup_dedup _)).mpr fun key => ?_
  rw [List.mem_dedup, mem_sideKeys]
  exact same.mem_keysHeld locate bid key

theorem size_eq (locate : UInt16) (bid : Bool) : (sides locate bid).size = (sideKeys live locate bid).dedup.length := by
  rw [← LevelSide.keysHeld_length]
  exact (same.keysHeld_perm locate bid).length_eq

/-- An order that leaves its side within bounds finds room there. -/
theorem room {o : Order} (fit : FitLevels (o :: live)) :
    (sides.get o).size < 2 ^ 31 ∨ restingAt live o.locate o.bid o.key ≠ [] := by
  by_cases present : restingAt live o.locate o.bid o.key = []
  · have absent : o.key ∉ sideKeys live o.locate o.bid := fun member => mem_sideKeys.mp member present
    have bound := fit o List.mem_cons_self
    rw [sideKeys_own, List.dedup_cons_of_notMem absent, List.length_cons, ← same.size_eq] at bound
    exact .inl bound
  · exact .inr present

end Sides.Match

end Itch
