import Itch.FullSide

namespace Itch

namespace BookEngine

/-- In every run of allowed calls on a fresh engine in which no side ever has live
orders at more than 2 ^ 31 prices, the engine refines the abstract one. -/
theorem run_refines (B : Build) (expectedOrders : TableSize B.group) {calls : List EngineCall}
    (allowed : NaiveEngine.AllowsAll {} calls) (fit : NaiveEngine.FitsAll {} calls) :
    ((create B expectedOrders).run calls).Refines (NaiveEngine.run {} calls) := by
  obtain ⟨tracks, few⟩ := tracks_run B expectedOrders allowed fit
  exact tracks.refines few

theorem run_refines_sample : ((create ⟨.avx2, 4⟩ 4).run [.add 7 1 (ascii 'B') 10 100, .add 7 2 (ascii 'S') 5 101, .reduce 1 20,
    .replace 2 2 6 99, .remove 3]).Refines (NaiveEngine.run {} [.add 7 1 (ascii 'B') 10 100, .add 7 2 (ascii 'S') 5 101,
      .reduce 1 20, .replace 2 2 6 99, .remove 3]) :=
  run_refines ⟨.avx2, 4⟩ ⟨4, by decide, by decide⟩ ⟨by decide, by decide, by decide, by decide, by decide, trivial⟩
    ⟨by decide, by decide, by decide, by decide, by decide, trivial⟩

/-- The bid after the first 2 ^ 31 finds a full side. -/
theorem ascendingBids_overflow (B : Build) (expectedOrders : Nat) {n : Nat} (full : n = 2 ^ 31) :
    ¬ ((create B expectedOrders).run (ascendingBids 0 (n + 1))).Refines (NaiveEngine.run {} (ascendingBids 0 (n + 1))) := by
  intro refines
  obtain ⟨none, size⟩ := bid_overflow B expectedOrders full
  exact LevelSide.lost_keys none (size ▸ by omega) (refines.ascending 0 true)

/-- With one bid at each of 2 ^ 31 + 1 prices the engine lost its levels. -/
theorem full_side_lost : NaiveEngine.AllowsAll {} (ascendingBids 0 (2 ^ 31 + 1)) ∧
    ¬ ((create ⟨.avx2, 4⟩ 0).run (ascendingBids 0 (2 ^ 31 + 1))).Refines
        (NaiveEngine.run {} (ascendingBids 0 (2 ^ 31 + 1))) := by
  have allowed := @ascendingBids_allowed 0 (2 ^ 31 + 1) (by omega)
  have overflow := @ascendingBids_overflow ⟨.avx2, 4⟩ 0 (2 ^ 31) (Eq.refl _)
  exact ⟨allowed, overflow⟩

end BookEngine

end Itch
