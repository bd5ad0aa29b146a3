import Itch.EngineRefines
import Itch.Lib.Reorder
import Mathlib.Algebra.Group.Nat.Defs
import Mathlib.Algebra.Group.Prod

namespace Itch

/-- The references that a call names. -/
def EngineCall.refs : EngineCall → List UInt64
  | .add _ ref _ _ _ => [ref]
  | .reduce ref _ => [ref]
  | .remove ref => [ref]
  | .replace oldRef newRef _ _ => [oldRef, newRef]

theorem EngineCall.refs_ne_nil (c : EngineCall) : c.refs ≠ [] := by
  cases c <;> exact List.cons_ne_nil _ _

namespace NaiveEngine

def held (n : NaiveEngine) (ref : UInt64) : Option Order := n.live.find? ref

def errors (n : NaiveEngine) : Nat × Nat := (n.unknownRef, n.overfill)

/-- What `take` leaves of an order. -/
def left (o : Order) (shares : UInt32) : Option Order :=
  if shares = 0 then some o
  else if o.shares - shares = 0 then none
  else some { o with shares := o.shares - shares }

variable {n m : NaiveEngine} {o : Order} {ref : UInt64}

theorem held_own (found : n.held ref = some o) : o.ref = ref := (KeyedList.find?_eq_some.mp found).2

theorem take_errors (n : NaiveEngine) (o : Order) (shares : UInt32) : (n.take o shares).errors = n.errors := by
  unfold take
  split
  · rfl
  · split <;> rfl

theorem take_held (found : n.held o.ref = some o) (shares : UInt32) (r : UInt64) :
    (n.take o shares).held r = if r = o.ref then left o shares else n.held r := by
  unfold take left
  split
  · split
    · rename_i same
      exact same ▸ found
    · rfl
  · split
    · exact KeyedList.find?_erase_eq o.ref r
    · exact KeyedList.find?_insert _ r

theorem overfilled_held (n : NaiveEngine) (o : Order) (shares : UInt32) : (n.overfilled o shares).held = n.held := by
  unfold overfilled
  split <;> rfl

theorem overfilled_errors (n : NaiveEngine) (o : Order) (shares : UInt32) :
    (n.overfilled o shares).errors = n.errors + if o.shares < shares then (0, 1) else (0, 0) := by
  unfold overfilled
  split <;> rfl

/-- What a call leaves under a reference, by what was under the references it names. -/
def heldAfter (held : UInt64 → Option Order) (c : EngineCall) (r : UInt64) : Option Order :=
  match c with
  | .add locate ref side shares price => if r = ref then some { ref, price, shares, locate, side } else held r
  | .reduce ref shares => if r = ref then (held ref).bind fun o => left o (min shares o.shares) else held r
  | .remove ref => if r = ref then none else held r
  | .replace oldRef newRef shares price =>
    match held oldRef with
    | none => held r
    | some o => if r = newRef then some { o with ref := newRef, shares, price } else if r = oldRef then none else held r

/-- What a call adds to the counters. -/
def faults (held : UInt64 → Option Order) : EngineCall → Nat × Nat
  | .add _ _ _ _ _ => (0, 0)
  | .reduce ref shares =>
    match held ref with
    | none => (1, 0)
    | some o => if o.shares < shares then (0, 1) else (0, 0)
  | .remove ref => if held ref = none then (1, 0) else (0, 0)
  | .replace oldRef _ _ _ => if held oldRef = none then (1, 0) else (0, 0)

theorem onLive_unknown {action : Order → NaiveEngine} (absent : n.held ref = none) :
    n.onLive ref action = { n with unknownRef := n.unknownRef + 1 } := by
  rw [held] at absent
  rw [onLive, absent]

theorem onLive_known {action : Order → NaiveEngine} (found : n.held ref = some o) : n.onLive ref action = action o := by
  rw [held] at found
  rw [onLive, found]

/-- A reference that is not held is not held either way. -/
theorem held_absent (absent : n.held ref = none) (r : UInt64) : n.held r = if r = ref then none else n.held r := by
  split
  · rename_i same
    exact same ▸ absent
  · rfl

theorem apply_spec (n : NaiveEngine) (c : EngineCall) :
    (∀ r, (n.apply c).held r = heldAfter n.held c r) ∧ (n.apply c).errors = n.errors + faults n.held c := by
  cases c with
  | add locate ref side shares price => exact ⟨fun r => KeyedList.find?_insert _ r, rfl⟩
  | reduce ref shares =>
    simp only [heldAfter, faults]
    cases found : n.held ref with
    | none =>
      rw [apply, onLive_unknown found]
      exact ⟨held_absent found, rfl⟩
    | some o =>
      have own := held_own found
      have kept : (n.overfilled o shares).held o.ref = some o := by rw [overfilled_held, own, found]
      rw [apply, onLive_known found, take_errors, overfilled_errors]
      refine ⟨fun r => ?_, rfl⟩
      rw [take_held kept, overfilled_held, own]
      rfl
  | remove ref =>
    simp only [heldAfter, faults]
    cases found : n.held ref with
    | none =>
      rw [apply, onLive_unknown found]
      exact ⟨held_absent found, rfl⟩
    | some o =>
      rw [apply, onLive_known found]
      exact ⟨KeyedList.find?_erase_eq ref, rfl⟩
  | replace oldRef newRef shares price =>
    simp only [heldAfter, faults]
    cases found : n.held oldRef with
    | none =>
      rw [apply, onLive_unknown found]
      exact ⟨fun r => rfl, rfl⟩
    | some o =>
      rw [apply, onLive_known found]
      refine ⟨fun r => ?_, rfl⟩
      have inserted := @KeyedList.find?_insert _ _ _ _ (n.live.erase oldRef) { o with ref := newRef, shares, price } r
      rw [KeyedList.find?_erase_eq] at inserted
      exact inserted

section Refs

variable {before before' : UInt64 → Option Order} {c : EngineCall}

theorem heldAfter_other {r : UInt64} (other : r ∉ c.refs) : heldAfter before c r = before r := by
  cases c with
  | add locate ref side shares price => exact if_neg fun same => other (List.mem_singleton.mpr same)
  | reduce ref shares => exact if_neg fun same => other (List.mem_singleton.mpr same)
  | remove ref => exact if_neg fun same => other (List.mem_singleton.mpr same)
  | replace oldRef newRef shares price =>
    simp only [EngineCall.refs, List.mem_cons, List.not_mem_nil, or_false, not_or] at other
    simp only [heldAfter]
    cases before oldRef with
    | none => rfl
    | some o =>
      dsimp only
      rw [if_neg other.2, if_neg other.1]

variable (agree : ∀ r ∈ c.refs, before r = before' r)
include agree

theorem heldAfter_congr : ∀ r ∈ c.refs, heldAfter before c r = heldAfter before' c r := by
  intro r named
  have here := agree r named
  cases c with
  | add locate ref side shares price => simp only [heldAfter, here]
  | reduce ref shares => simp only [heldAfter, here, agree ref List.mem_cons_self]
  | remove ref => simp only [heldAfter, here]
  | replace oldRef newRef shares price => simp only [heldAfter, here, agree oldRef List.mem_cons_self]

theorem faults_congr : faults before c = faults before' c := by
  cases c with
  | add locate ref side shares price => rfl
  | reduce ref shares => simp only [faults, agree ref List.mem_cons_self]
  | remove ref => simp only [faults, agree ref List.mem_cons_self]
  | replace oldRef newRef shares price => simp only [faults, agree oldRef List.mem_cons_self]

end Refs

theorem allows_congr {c : EngineCall} (agree : ∀ r ∈ c.refs, n.held r = m.held r) (allowed : n.Allows c) : m.Allows c := by
  cases c with
  | add locate ref side shares price => exact (agree ref List.mem_cons_self).symm.trans allowed
  | reduce ref shares => exact trivial
  | remove ref => exact trivial
  | replace oldRef newRef shares price =>
    intro live other
    have old := agree oldRef List.mem_cons_self
    have new := agree newRef (List.mem_cons_of_mem _ List.mem_cons_self)
    exact new.symm.trans (allowed (fun absent => live (old.symm.trans absent)) other)

/-- What a call does depends on the references it names only. -/
theorem isLocal : Reorder.Local apply EngineCall.refs held errors Allows where
  frame n c r other := ((apply_spec n c).1 r).trans (heldAfter_other other)
  writes n m c agree r named := by
    rw [(apply_spec n c).1, (apply_spec m c).1]
    exact heldAfter_congr agree r named
  adds n m c agree := by
    refine ⟨faults n.held c, (apply_spec n c).2, ?_⟩
    rw [faults_congr agree]
    exact (apply_spec m c).2
  guard n m c agree := allows_congr agree

/-- A run in which no reference is given twice. -/
def FreshAll : NaiveEngine → List EngineCall → Prop := Runs.Every apply Allows

/-- A run with fewer than 2 ^ 32 orders live. -/
def FewAll : NaiveEngine → List EngineCall → Prop := Runs.Every apply fun n c => (n.apply c).live.entries.length < 2 ^ 32

/-- Two calls that name different references are as fresh one after the other as each alone. -/
theorem FreshAll.append {calls : List EngineCall} (fresh : FreshAll {} calls) {a b : EngineCall}
    (first : (run {} calls).Allows a) (second : (run {} calls).Allows b) (apart : a.refs.Disjoint b.refs) :
    FreshAll {} (calls ++ [a, b]) := by
  have after : ((run {} calls).apply a).Allows b :=
    allows_congr (fun r named => (isLocal.untouched apart _ r named).symm) second
  exact Runs.every_append_pair.mpr ⟨fresh, first, after⟩

theorem remove_length (n : NaiveEngine) (ref : UInt64) :
    (n.apply (.remove ref)).live.entries.length ≤ n.live.entries.length := by
  cases found : n.held ref with
  | none =>
    rw [apply, onLive_unknown found]
  | some o =>
    rw [apply, onLive_known found]
    exact List.length_filter_le ..

end NaiveEngine

end Itch
