import Itch.BookBuilder
import Itch.EngineSteps

namespace Itch

/-- What the abstract engine makes of a message. -/
def NaiveEngine.on (n : NaiveEngine) : Message → NaiveEngine
  | .book m => n.apply m.call
  | .stockDirectory _ => n
  | .systemEvent _ => n
  | .other _ => n

/-- Whether a message adds no reference that is live, but for a replace that keeps its own. -/
def NaiveEngine.Fresh (n : NaiveEngine) : Message → Prop
  | .book m => n.Allows m.call
  | .stockDirectory _ => True
  | .systemEvent _ => True
  | .other _ => True

/-- Whether the live orders fit the arrays and counts of their levels. -/
def NaiveEngine.Fits (n : NaiveEngine) : Prop := FitLevels n.live.entries ∧ FitCounts n.live.entries

/-- Whether the counts of the levels tell what a message leaves at a price from none. -/
def NaiveEngine.CountsOn (n : NaiveEngine) : Message → Prop
  | .book m => n.Counts m.call
  | .stockDirectory _ => True
  | .systemEvent _ => True
  | .other _ => True

instance (n : NaiveEngine) : (m : Message) → Decidable (n.CountsOn m)
  | .book m => inferInstanceAs (Decidable (n.Counts m.call))
  | .stockDirectory _ => isTrue trivial
  | .systemEvent _ => isTrue trivial
  | .other _ => isTrue trivial

instance (n : NaiveEngine) : (m : Message) → Decidable (n.Fresh m)
  | .book m => inferInstanceAs (Decidable (n.Allows m.call))
  | .stockDirectory _ => isTrue trivial
  | .systemEvent _ => isTrue trivial
  | .other _ => isTrue trivial

instance (n : NaiveEngine) : Decidable n.Fits :=
  inferInstanceAs (Decidable (FitLevels n.live.entries ∧ FitCounts n.live.entries))

/-- What the abstract engine makes of the bytes of a message: a malformed one is not decoded. -/
def NaiveEngine.parse (n : NaiveEngine) (msg : List UInt8) : NaiveEngine :=
  if Parser.WellFormed msg then n.on (.decode msg) else n

def NaiveEngine.ParsesFresh (n : NaiveEngine) (msg : List UInt8) : Prop := Parser.WellFormed msg → n.Fresh (.decode msg)

instance (n : NaiveEngine) (msg : List UInt8) : Decidable (n.ParsesFresh msg) :=
  inferInstanceAs (Decidable (Parser.WellFormed msg → n.Fresh (.decode msg)))

theorem NaiveEngine.empty_fits : NaiveEngine.Fits {} := by
  constructor
  · intro o member
    cases member
  · intro o member
    cases member

namespace LevelSide

variable {s : LevelSide}

/-- Allocating the first arrays keeps all levels, of which there are none. -/
theorem reserveInitial_spec (wf : s.WF) : s.reserveInitial.WF ∧ ∀ key, s.reserveInitial.lookup key = s.lookup key := by
  rw [reserveInitial]
  split
  · rename_i unallocated
    have fits := wf.fits
    obtain ⟨kept, size, -, -⟩ := grow_spec wf (by omega) (by omega)
    have none : s.size = 0 := by omega
    refine ⟨kept, fun key => ?_⟩
    rw [lookup, lookup, levels, levels, size, none]
    rfl
  · exact ⟨wf, fun _ => rfl⟩

end LevelSide

namespace BookEngine

variable {B : Build} {τ : Type} {e : BookEngine B} {n : NaiveEngine}

theorem Tracks.prepare (tracks : e.Tracks n) (locate : UInt16) : (e.prepare locate).Tracks n where
  orders := tracks.orders
  stats := tracks.stats
  sides :=
    { wf := by
        intro l bid
        rw [prepare_sides]
        split
        · exact (LevelSide.reserveInitial_spec (tracks.sides.wf l bid)).1
        · exact tracks.sides.wf l bid
      levels := by
        intro l bid key
        rw [prepare_sides, ← tracks.sides.levels]
        split
        · exact (LevelSide.reserveInitial_spec (tracks.sides.wf l bid)).2 key
        · rfl }

/-- A builder keeps its engine in step with the abstract one, whatever its sink. -/
theorem Tracks.on_counted {b : BookBuilder B τ} (tracks : b.engine.Tracks n) (S : Sink B τ) {m : Message}
    (counts : n.CountsOn m) (fresh : n.Fresh m) (fit : FitLevels (n.on m).live.entries) :
    (b.on S m).engine.Tracks (n.on m) := by
  cases m with
  | book m =>
    rw [BookBuilder.on, BookBuilder.onBookMessage_eq]
    exact tracks.call_counted counts fresh fit
  | stockDirectory m => exact tracks.prepare m.locate
  | systemEvent m => exact tracks
  | other p => exact tracks

theorem Tracks.on {b : BookBuilder B τ} (tracks : b.engine.Tracks n) (S : Sink B τ) (few : FitCounts n.live.entries)
    {m : Message} (fresh : n.Fresh m) (fit : FitLevels (n.on m).live.entries) : (b.on S m).engine.Tracks (n.on m) := by
  refine tracks.on_counted S ?_ fresh fit
  cases m with
  | book m => exact n.counts_of_fit few m.call
  | stockDirectory m => exact trivial
  | systemEvent m => exact trivial
  | other p => exact trivial

end BookEngine

end Itch
