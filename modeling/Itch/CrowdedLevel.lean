import Itch.BookSession

namespace Itch

/-- One of many orders at one price. -/
def crowdOrder (i : Nat) : Order :=
  { ref := UInt64.ofNat (i + 1), price := 99900, shares := 100, locate := 1, side := ascii 'B' }

def crowdCall (i : Nat) : EngineCall :=
  .add (crowdOrder i).locate (crowdOrder i).ref (crowdOrder i).side (crowdOrder i).shares (crowdOrder i).price

/-- The first `n` orders of a crowd join it. -/
def crowdCalls (n : Nat) : List EngineCall := (List.range n).map crowdCall

def crowd (n : Nat) : List Order := ((List.range n).map crowdOrder).reverse

theorem crowdCalls_zero : crowdCalls 0 = [] := rfl

theorem crowdCalls_succ (n : Nat) : crowdCalls (n + 1) = crowdCalls n ++ [crowdCall n] := by
  rw [crowdCalls, List.range_succ, List.map_append]
  rfl

theorem crowd_succ (n : Nat) : crowd (n + 1) = crowdOrder n :: crowd n := by
  rw [crowd, List.range_succ, List.map_append, List.reverse_append]
  rfl

theorem crowd_length (n : Nat) : (crowd n).length = n := by
  rw [crowd, List.length_reverse, List.length_map, List.length_range]

theorem mem_crowd {n : Nat} {o : Order} : o ∈ crowd n ↔ ∃ i < n, crowdOrder i = o := by
  simp only [crowd, List.mem_reverse, List.mem_map, List.mem_range]

/-- All of a crowd rest at one level. -/
theorem crowd_level {n : Nat} {o : Order} (member : o ∈ crowd n) :
    o.locate = 1 ∧ o.side = ascii 'B' ∧ o.bid = true ∧ o.key = 99900 := by
  obtain ⟨i, -, rfl⟩ := mem_crowd.mp member
  exact ⟨rfl, rfl, rfl, rfl⟩

theorem crowd_ref {i j : Nat} (left : i < 2 ^ 63) (right : j < 2 ^ 63) (same : (crowdOrder i).ref = (crowdOrder j).ref) :
    i = j := by
  have refs := congrArg UInt64.toNat same
  change (UInt64.ofNat (i + 1)).toNat = (UInt64.ofNat (j + 1)).toNat at refs
  rw [UInt64.toNat_ofNat', UInt64.toNat_ofNat'] at refs
  omega

theorem crowd_fits (n : Nat) : FitLevels (crowd n) := by
  intro o _
  have one : (sideKeys (crowd n) o.locate o.bid).dedup ⊆ [99900] := by
    intro key member
    obtain ⟨q, resting, rfl⟩ := List.mem_map.mp (List.mem_dedup.mp member)
    exact List.mem_singleton.mpr (crowd_level (List.mem_filter.mp resting).1).2.2.2
  have few := ((List.nodup_dedup _).subperm one).length_le
  exact few.trans (by decide)

section Naive

variable {m : NaiveEngine} {n : Nat} (held : m.live.entries = crowd n) (small : n < 2 ^ 63)
include held small

theorem crowd_fresh : m.Allows (crowdCall n) := by
  refine KeyedList.find?_eq_none.mpr fun o member same => ?_
  rw [held, mem_crowd] at member
  obtain ⟨i, inside, rfl⟩ := member
  have equal := crowd_ref (by omega) small same
  omega

theorem crowd_join : (m.apply (crowdCall n)).live.entries = crowd (n + 1) := by
  have joined := @KeyedList.insert_entries _ _ Order.ref _ _ (crowdOrder n) (crowd_fresh held small)
  rw [held, ← crowd_succ] at joined
  exact joined

end Naive

theorem crowd_held {m : NaiveEngine} (none : m.live.entries = []) {n : Nat} (small : n ≤ 2 ^ 63) :
    (m.run (crowdCalls n)).live.entries = crowd n := by
  induction n with
  | zero => exact none
  | succ n ih =>
    rw [crowdCalls_succ, NaiveEngine.run, List.foldl_append]
    exact crowd_join (ih (by omega)) (by omega)

namespace BookEngine

variable {B : Build} {e : BookEngine B} {m : NaiveEngine}

/-- Any number of orders can join one level, whose count then wraps. -/
theorem crowd_tracks (tracks : e.Tracks m) (none : m.live.entries = []) {n : Nat} (small : n ≤ 2 ^ 63) :
    (e.run (crowdCalls n)).Tracks (m.run (crowdCalls n)) := by
  induction n with
  | zero => exact tracks
  | succ n ih =>
    have held := crowd_held none (Nat.le_of_succ_le small)
    have joined := crowd_join held (by omega)
    rw [crowdCalls_succ, run, NaiveEngine.run, List.foldl_append, List.foldl_append]
    exact @Tracks.add _ _ _ (ih (by omega)) (crowdOrder n) (crowd_fresh held (by omega)) (joined ▸ crowd_fits (n + 1))

/-- With 2 ^ 32 + 1 orders the count is 1, and the first order to leave takes the level with it. -/
theorem Tracks.collapse (tracks : e.Tracks m) {n : Nat} (wraps : n % 2 ^ 32 = 0) (held : m.live.entries = crowd (n + 1))
    {ref : UInt64} {p : e.orders.Pointer} (found : e.orders.find ref = some p) :
    ((e.remove ref).1.sides.get p.order).size = 0 := by
  have member : p.order ∈ crowd (n + 1) := held ▸ tracks.orders.mem_iff.mp (OrderMap.pointer_mem _ p)
  have split := List.perm_cons_erase member
  have same := (held ▸ tracks.sides).perm split
  have level := crowd_level member
  have all : restingAt ((crowd (n + 1)).erase p.order) p.order.locate p.order.bid p.order.key =
      (crowd (n + 1)).erase p.order := by
    refine List.filter_eq_self.mpr fun o others => ?_
    have here := crowd_level (List.mem_of_mem_erase others)
    rw [decide_eq_true_eq, here.1, here.2.2.1, here.2.2.2, level.1, level.2.2.1, level.2.2.2]
    exact ⟨rfl, rfl, rfl⟩
  have count : ((crowd (n + 1)).erase p.order).length = n := by
    rw [List.length_erase_of_mem member, crowd_length]
    rfl
  obtain ⟨low, high, -, touch, -⟩ := same.reduced B.search p.order.shares true
  obtain ⟨-, sides, -, -⟩ := remove_effect e found
  have gone : Level.leave p.order.key p.order.shares true
      ⟨p.order.key, UInt64.ofNat (totalShares (p.order :: (crowd (n + 1)).erase p.order)), UInt32.ofNat (n + 1)⟩ = none := by
    have zero : UInt32.ofNat (n + 1) - 1 = 0 := by
      rw [UInt32.ofNat_add]
      refine (UInt32.add_sub_cancel _ _).trans (UInt32.toNat_inj.mp ?_)
      rw [UInt32.toNat_ofNat', wraps]
      rfl
    exact if_pos zero
  rw [all, count, gone] at touch
  -- no other level is on the side
  have alone : ∀ l ∈ (e.sides.get p.order).levels, l.key = p.order.key := by
    intro l inside
    have key : l.key ∈ (e.sides.get p.order).keysHeld := List.mem_map_of_mem inside
    obtain ⟨o, resting⟩ := List.exists_mem_of_ne_nil _ ((same.mem_keysHeld _ _ _).mp key)
    have here := crowd_level (split.mem_iff.mpr (List.mem_filter.mp resting).1)
    have at' : o.key = l.key := by
      have rests := (List.mem_filter.mp resting).2
      simp only [decide_eq_true_eq] at rests
      exact rests.2.2
    rw [← at', here.2.2.2, level.2.2.2]
  have nothing : ((e.sides.get p.order).reduce B.search p.order.key p.order.shares true).1.levels = [] := by
    have old := touch.old
    have low_nil : low = [] := List.eq_nil_iff_forall_not_mem.mpr fun l inside =>
      UInt32.ne_of_lt (touch.below l inside) (alone l (by rw [old]; simp [inside]))
    have high_nil : high = [] := List.eq_nil_iff_forall_not_mem.mpr fun l inside =>
      (UInt32.ne_of_lt (touch.above l inside)).symm (alone l (by rw [old]; simp [inside]))
    rw [touch.new, low_nil, high_nil]
    rfl
  rw [sides, Sides.get, Sides.set, if_pos ⟨rfl, rfl⟩, ← LevelSide.keysHeld_length, LevelSide.keysHeld, nothing]
  rfl

end BookEngine

-- too long a run to unfold it
attribute [irreducible] crowdCalls

end Itch
