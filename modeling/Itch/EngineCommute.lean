import Itch.EngineReorder
import Itch.FullSide

namespace Itch

namespace BookEngine

variable {B : Build}

/-- Engines with the same live orders, the same statistics, and on both sides of every book
the same keys, shares and counts in the `size` elements of the arrays that are in use. -/
structure Agrees (e e' : BookEngine B) : Prop where
  orders : e.orders.orders.Perm e'.orders.orders
  find : ∀ ref, (e.orders.find ref).map (fun p => p.order) = (e'.orders.find ref).map (fun p => p.order)
  size : ∀ locate bid, (e.sides locate bid).size = (e'.sides locate bid).size
  levels : ∀ locate bid, (e.sides locate bid).levels = (e'.sides locate bid).levels
  stats : e.stats = e'.stats

/-- Engines agree when the abstract ones they track hold the same. -/
theorem Tracks.agrees {e e' : BookEngine B} {n n' : NaiveEngine} (tracks : e.Tracks n) (tracks' : e'.Tracks n')
    (same : Reorder.Same NaiveEngine.held NaiveEngine.errors n n') : e.Agrees e' := by
  have entries : n.live.entries.Perm n'.live.entries := KeyedList.perm_of_find? same.cells
  have sides := tracks.sides.perm entries
  have levels : ∀ locate bid, (e.sides locate bid).levels = (e'.sides locate bid).levels := fun locate bid =>
    (tracks.sides.wf locate bid).levels_ext (tracks'.sides.wf locate bid) fun key =>
      (sides.levels locate bid key).trans (tracks'.sides.levels locate bid key).symm
  refine ⟨tracks.orders.trans (entries.trans tracks'.orders.symm), fun ref => ?_, fun locate bid => ?_, levels, ?_⟩
  · rw [tracks.find, tracks'.find]
    exact same.cells ref
  · rw [← LevelSide.keysHeld_length, ← LevelSide.keysHeld_length, LevelSide.keysHeld, LevelSide.keysHeld, levels]
  · have unknownRef : n.unknownRef = n'.unknownRef := congrArg Prod.fst same.total
    have overfill : n.overfill = n'.overfill := congrArg Prod.snd same.total
    rw [tracks.stats, tracks'.stats, unknownRef, overfill]

theorem reordered_agrees (B : Build) (expectedOrders : Nat) {calls calls' : List EngineCall}
    (fresh : NaiveEngine.FreshAll {} calls) (few : NaiveEngine.FewAll {} calls) (few' : NaiveEngine.FewAll {} calls')
    (fit : NaiveEngine.FitsAll {} calls) (fit' : NaiveEngine.FitsAll {} calls')
    (swaps : Reorder.Swaps EngineCall.refs calls calls') :
    ((create B expectedOrders).run calls).Agrees ((create B expectedOrders).run calls') := by
  have fresh' : NaiveEngine.FreshAll {} calls' := NaiveEngine.isLocal.swaps_every swaps fresh
  obtain ⟨tracks, -⟩ := tracks_run B expectedOrders (Runs.Every.and fresh few) fit
  obtain ⟨tracks', -⟩ := tracks_run B expectedOrders (Runs.Every.and fresh' few') fit'
  exact tracks.agrees tracks' (NaiveEngine.isLocal.swaps swaps {})

/-- Calls about different orders commute after every run of calls that give no reference
twice, and a run ends in the same books in every order that keeps the calls about each
reference in theirs, as long as no side ever has live orders at more than 2 ^ 31 prices. -/
theorem calls_commute (B : Build) (expectedOrders : TableSize B.group) :
    (∀ (calls : List EngineCall) (a b : EngineCall), NaiveEngine.FreshAll {} calls →
      (NaiveEngine.run {} calls).Allows a → (NaiveEngine.run {} calls).Allows b → a.refs.Disjoint b.refs →
      NaiveEngine.FewAll {} (calls ++ [a, b]) → NaiveEngine.FewAll {} (calls ++ [b, a]) →
      NaiveEngine.FitsAll {} (calls ++ [a, b]) → NaiveEngine.FitsAll {} (calls ++ [b, a]) →
      ((create B expectedOrders).run (calls ++ [a, b])).Agrees ((create B expectedOrders).run (calls ++ [b, a]))) ∧
    (∀ calls calls' : List EngineCall, NaiveEngine.FreshAll {} calls →
      NaiveEngine.FewAll {} calls → NaiveEngine.FewAll {} calls' →
      NaiveEngine.FitsAll {} calls → NaiveEngine.FitsAll {} calls' →
      (∀ ref, calls.filter (ref ∈ EngineCall.refs ·) = calls'.filter (ref ∈ EngineCall.refs ·)) →
      ((create B expectedOrders).run calls).Agrees ((create B expectedOrders).run calls')) := by
  constructor
  · intro calls a b fresh first second apart few few' fit fit'
    have swaps : Reorder.Swaps EngineCall.refs (calls ++ [a, b]) (calls ++ [b, a]) := .append calls (.swap apart [])
    exact reordered_agrees B expectedOrders (fresh.append first second apart) few few' fit fit' swaps
  · intro calls calls' fresh few few' fit fit' same
    exact reordered_agrees B expectedOrders fresh few few' fit fit' (.of_filter EngineCall.refs_ne_nil same)

theorem calls_commute_sample :
    ((create ⟨.avx2, 4⟩ 4).run ([.add 7 1 (ascii 'B') 10 100] ++ [.add 7 2 (ascii 'B') 5 100, .reduce 1 12])).Agrees
      ((create ⟨.avx2, 4⟩ 4).run ([.add 7 1 (ascii 'B') 10 100] ++ [.reduce 1 12, .add 7 2 (ascii 'B') 5 100])) ∧
    ((create ⟨.avx2, 4⟩ 4).run [.add 7 1 (ascii 'B') 10 100, .add 7 2 (ascii 'S') 5 101, .remove 1]).Agrees
      ((create ⟨.avx2, 4⟩ 4).run [.add 7 2 (ascii 'S') 5 101, .add 7 1 (ascii 'B') 10 100, .remove 1]) := by
  obtain ⟨pair, reorder⟩ := calls_commute ⟨.avx2, 4⟩ ⟨4, by decide, by decide⟩
  have apart : (EngineCall.add 7 2 (ascii 'B') 5 100).refs.Disjoint (EngineCall.reduce 1 12).refs := by
    simp [EngineCall.refs]
  have apart' : (EngineCall.add 7 1 (ascii 'B') 10 100).refs.Disjoint (EngineCall.add 7 2 (ascii 'S') 5 101).refs := by
    simp [EngineCall.refs]
  constructor
  · exact pair [.add 7 1 (ascii 'B') 10 100] (.add 7 2 (ascii 'B') 5 100) (.reduce 1 12) ⟨by decide, trivial⟩
      (by decide) trivial apart ⟨by decide, by decide, by decide, trivial⟩ ⟨by decide, by decide, by decide, trivial⟩
      ⟨by decide, by decide, by decide, trivial⟩ ⟨by decide, by decide, by decide, trivial⟩
  · refine reorder _ _ ⟨by decide, by decide, trivial, trivial⟩ ⟨by decide, by decide, by decide, trivial⟩
      ⟨by decide, by decide, by decide, trivial⟩ ⟨by decide, by decide, by decide, trivial⟩
      ⟨by decide, by decide, by decide, trivial⟩ ?_
    exact Reorder.Swaps.filter (.swap apart' [EngineCall.remove 1])

section Lost

/-- A side without its key array keeps all its levels but one when an order goes. -/
theorem remove_lost {e : BookEngine B} (ref : UInt64) {locate : UInt16} {bid : Bool}
    (none : (e.sides locate bid).keys = []) : ((e.remove ref).1.sides locate bid).keys = [] ∧
      (e.sides locate bid).size - 1 ≤ ((e.remove ref).1.sides locate bid).size := by
  cases found : e.orders.find ref with
  | none =>
    rw [remove_unknown e found]
    exact ⟨none, Nat.sub_le ..⟩
  | some p =>
    obtain ⟨-, sides, -, -⟩ := remove_effect e found
    rw [sides, Sides.set]
    split
    · rename_i side
      obtain ⟨rfl, rfl⟩ := side
      exact LevelSide.reduce_lost B.search none _ _ _
    · exact ⟨none, Nat.sub_le ..⟩

variable {n : Nat}

/-- The first of the bids goes and one at a new price comes: as many are live as before. -/
theorem removed_then_bid (some : 0 < n) (below : n < 2 ^ 32) :
    ((NaiveEngine.run {} (ascendingBids 0 n)).apply (.remove 0)).live.entries.length + 1 = n ∧
      (((NaiveEngine.run {} (ascendingBids 0 n)).apply (.remove 0)).apply (bidCall 0 n)).live.entries.length = n := by
  have length := @naive_length 0 n (Nat.le_of_lt below)
  have entries := @naive_ascendingBids 0 n (Nat.le_of_lt below)
  have absent := bid_fresh below entries
  generalize NaiveEngine.run {} (ascendingBids 0 n) = state at *
  have found : state.held 0 = Option.some (bidOrder 0 0) := by
    refine KeyedList.find?_eq_some.mpr ⟨?_, rfl⟩
    rw [entries, List.mem_reverse]
    exact List.mem_map_of_mem (List.mem_range.mpr some)
  have fewer : (state.live.erase 0).entries.length + 1 = n := by
    have split := KeyedList.entries_perm found
    rw [← length, split.length_eq, List.length_cons]
  have fresh : (state.live.erase 0).find? (bidOrder 0 n).ref = none := KeyedList.find?_erase fun _ => absent
  rw [NaiveEngine.apply, NaiveEngine.onLive_known found]
  refine ⟨fewer, ?_⟩
  have inserted := congrArg List.length (KeyedList.insert_entries fresh)
  exact inserted.trans fewer

/-- A side with 2 ^ 31 levels keeps them when an order goes before the next comes, and
loses them when the next comes first. -/
theorem full_side_order (B : Build) (expectedOrders : Nat) (full : n = 2 ^ 31)
    (kept : NaiveEngine.AllowsAll {} (ascendingBids 0 n ++ [.remove 0, bidCall 0 n]))
    (fit : NaiveEngine.FitsAll {} (ascendingBids 0 n ++ [.remove 0, bidCall 0 n])) :
    ¬ ((create B expectedOrders).run (ascendingBids 0 n ++ [.remove 0, bidCall 0 n])).Agrees
      ((create B expectedOrders).run (ascendingBids 0 n ++ [bidCall 0 n, .remove 0])) := by
  intro agrees
  obtain ⟨tracks, -⟩ := tracks_run B expectedOrders kept fit
  have ascending := (tracks.sides.wf 0 true).keysHeld_ascending
  rw [LevelSide.keysHeld, agrees.levels 0 true] at ascending
  obtain ⟨none, size⟩ := bid_overflow B expectedOrders full
  have last : (create B expectedOrders).run (ascendingBids 0 n ++ [bidCall 0 n, .remove 0]) =
      (((create B expectedOrders).run (ascendingBids 0 (n + 1))).remove 0).1 := by
    rw [ascendingBids_succ, List.append_cons, BookEngine.run, List.foldl_append]
    rfl
  rw [last] at ascending
  obtain ⟨lost, more⟩ := remove_lost 0 none
  exact LevelSide.lost_keys lost (by omega) ascending

/-- Some calls about different orders do not commute. -/
theorem orders_differ : ¬ ∀ (B : Build) (expectedOrders : TableSize B.group) (calls : List EngineCall) (a b : EngineCall),
    NaiveEngine.FreshAll {} calls → (NaiveEngine.run {} calls).Allows a → (NaiveEngine.run {} calls).Allows b →
    a.refs.Disjoint b.refs → NaiveEngine.FewAll {} (calls ++ [a, b]) → NaiveEngine.FewAll {} (calls ++ [b, a]) →
    ((create B expectedOrders).run (calls ++ [a, b])).Agrees ((create B expectedOrders).run (calls ++ [b, a])) := by
  intro always
  obtain ⟨n, full⟩ : ∃ n, n = 2 ^ 31 := ⟨_, rfl⟩
  have allowed := @ascendingBids_allowed 0 n (by omega)
  have fresh : NaiveEngine.FreshAll {} (ascendingBids 0 n) := allowed.imp fun _ _ both => both.1
  have few : NaiveEngine.FewAll {} (ascendingBids 0 n) := allowed.imp fun _ _ both => both.2
  have absent := @bid_fresh 0 n (by omega) _ (naive_ascendingBids (by omega))
  have apart : (EngineCall.remove 0).refs.Disjoint (bidCall 0 n).refs := by
    refine List.disjoint_left.mpr fun ref left right => ?_
    obtain rfl := List.mem_singleton.mp left
    have same := congrArg UInt64.toNat (List.mem_singleton.mp right)
    rw [UInt64.toNat_ofNat'] at same
    change 0 = _ at same
    omega
  obtain ⟨fewer, same⟩ := @removed_then_bid n (by omega) (by omega)
  have more : ((NaiveEngine.run {} (ascendingBids 0 n)).apply (bidCall 0 n)).live.entries.length = n + 1 := by
    rw [naive_next, naive_length (by omega)]
  have removed := NaiveEngine.remove_length ((NaiveEngine.run {} (ascendingBids 0 n)).apply (bidCall 0 n)) 0
  have first : NaiveEngine.FewAll {} (ascendingBids 0 n ++ [.remove 0, bidCall 0 n]) := by
    refine Runs.every_append_pair.mpr ⟨few, ?_, ?_⟩
    · exact (Nat.lt_of_succ_le fewer.le).trans (by omega)
    · exact same.trans_lt (by omega)
  have second : NaiveEngine.FewAll {} (ascendingBids 0 n ++ [bidCall 0 n, .remove 0]) := by
    refine Runs.every_append_pair.mpr ⟨few, ?_, ?_⟩
    · exact more.trans_lt (by omega)
    · exact removed.trans_lt (more.trans_lt (by omega))
  have fit : NaiveEngine.FitsAll {} (ascendingBids 0 n ++ [.remove 0, bidCall 0 n]) := by
    refine Runs.every_append_pair.mpr ⟨ascendingBids_fit full.le, fitLevels_of_length ?_, fitLevels_of_length ?_⟩
    · exact (Nat.le_of_succ_le fewer.le).trans full.le
    · exact same.trans_le full.le
  have kept : NaiveEngine.AllowsAll {} (ascendingBids 0 n ++ [.remove 0, bidCall 0 n]) :=
    Runs.Every.and (fresh.append trivial absent apart) first
  have agrees := always ⟨.avx2, 4⟩ ⟨0, by decide, by decide⟩ (ascendingBids 0 n) (.remove 0) (bidCall 0 n) fresh trivial absent apart first second
  exact full_side_order ⟨.avx2, 4⟩ 0 full kept fit agrees

end Lost

end BookEngine

end Itch
