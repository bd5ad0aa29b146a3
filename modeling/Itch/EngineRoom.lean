import Itch.BookBuilder
import Itch.FullSide

namespace Itch

variable {B : Build}

namespace LevelSide

variable {s : LevelSide}

theorem not_wf_of_lost (none : s.keys = []) (some : 0 < s.size) : ¬ s.WF := by
  intro wf
  have arrays := wf.keys
  have fits := wf.fits
  rw [none, List.length_nil] at arrays
  omega

/-- An `add` without room for its level loses the key array. -/
theorem add_wf_iff (search : LevelSearch) (wf : s.WF) (key shares : UInt32) :
    (s.add search key shares).1.WF ↔ s.size < 2 ^ 31 ∨ s.lookup key ≠ none := by
  refine ⟨fun kept => ?_, fun room => (add_best search wf key shares room).1⟩
  by_contra crowded
  obtain ⟨many, absent⟩ := not_or.mp crowded
  have full : s.size = 2 ^ 31 := Nat.le_antisymm (wf.fits.trans wf.cap_le) (Nat.le_of_not_lt many)
  obtain ⟨none, size, -⟩ := add_overflow search wf key shares full (not_not.mp absent)
  exact not_wf_of_lost none ((Nat.succ_pos _).trans_eq size.symm) kept

end LevelSide

namespace BookEngine

variable {e : BookEngine B}

theorem add_wf_iff (wf : e.WF) (o : Order) :
    (e.add o.locate o.ref o.side o.shares o.price).1.WF ↔ e.RoomFor o := by
  refine ⟨fun kept => ?_, fun room => (add_reports wf room).wf⟩
  have side := kept o.locate o.bid
  rw [(add_effect e o).2.1, Sides.set, if_pos ⟨rfl, rfl⟩] at side
  exact (LevelSide.add_wf_iff B.search (wf o.locate o.bid) o.key o.shares).mp side

/-- A call stays within the arrays of the sides exactly if there is room for what it adds. -/
theorem call_wf_iff (wf : e.WF) (c : EngineCall) : (e.call c).1.WF ↔ e.Room c := by
  cases c with
  | add locate ref side shares price => exact add_wf_iff wf ⟨ref, price, shares, locate, side⟩
  | reduce ref shares => exact iff_of_true (reduce_reports wf ref shares).wf trivial
  | remove ref => exact iff_of_true (remove_reports wf ref).wf trivial
  | replace oldRef newRef shares price =>
    cases found : e.orders.find oldRef with
    | none =>
      have room : e.Room (.replace oldRef newRef shares price) := fun p held => absurd (found.symm.trans held) nofun
      exact iff_of_true (replace_reports wf room).wf room
    | some p =>
      have removed := (remove_reports wf oldRef).wf
      have added := add_wf_iff removed { p.order with ref := newRef, shares, price }
      rw [call, replace_eq e found]
      refine added.trans ⟨fun room q held => ?_, fun room => room p found⟩
      obtain rfl := Option.some.inj (found.symm.trans held)
      exact room

end BookEngine

namespace BookBuilder

variable {τ : Type} (S : Sink B τ)

/-- Whether a message opens no level on a side that holds 2 ^ 31 levels. -/
def Room (b : BookBuilder B τ) : Message → Prop
  | .book m => b.engine.Room m.call
  | _ => True

theorem on_engine (b : BookBuilder B τ) (m : BookMessage) : (b.on S (.book m)).engine = (b.engine.call m.call).1 := by
  rw [on, onBookMessage_eq]
  rfl

theorem on_wf_iff {b : BookBuilder B τ} (wf : b.engine.WF) (m : Message) : (b.on S m).engine.WF ↔ b.Room m := by
  cases m with
  | book m =>
    rw [on_engine]
    exact BookEngine.call_wf_iff wf m.call
  | stockDirectory m => exact iff_of_true (BookEngine.prepare_reports wf m.locate).wf trivial
  | systemEvent m => exact iff_of_true wf trivial
  | other type => exact iff_of_true wf trivial

end BookBuilder

end Itch
