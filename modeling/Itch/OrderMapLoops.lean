import Itch.OrderMapInsert

namespace Itch

open TriangularProbe

namespace BasicOrderMap

section Loops

variable (G : Group) (m : BasicOrderMap)

/-- The candidate in group `g` that has the reference. -/
def candidate (ref : UInt64) (g : Nat) : Option Nat :=
  (G.matchTag (m.group G g) (m.tag (hash ref))).lanes.find? fun i => (m.slot (g * G.width + i)).ref = ref

/-- The loop of `find` from group `g` on, without a bound: how many groups it looks at, and its result. -/
inductive FindLoop (ref : UInt64) : Nat → Nat → Nat → Option Nat → Prop
  | hit {g step i : Nat} (found : m.candidate G ref g = some i) : FindLoop ref g step 1 (some (g * G.width + i))
  | stop {g step : Nat} (missed : m.candidate G ref g = none) (opened : (G.matchEmpty (m.group G g)).any) :
      FindLoop ref g step 1 none
  | next {g step n : Nat} {r : Option Nat} (missed : m.candidate G ref g = none)
      (packed : ¬ (G.matchEmpty (m.group G g)).any) (rest : FindLoop ref (g + step &&& m.groupMask) (step + 1) n r) :
      FindLoop ref g step (n + 1) r

/-- The loop of `insert` from group `g` on: how many groups it looks at, and the slot it claims. -/
inductive FreeLoop : Nat → Nat → Nat → Nat → Prop
  | found {g step : Nat} (free : (G.matchEmptyOrDeleted (m.group G g)).any) :
      FreeLoop g step 1 (g * G.width + (G.matchEmptyOrDeleted (m.group G g)).lowest)
  | next {g step n i : Nat} (full : ¬ (G.matchEmptyOrDeleted (m.group G g)).any)
      (rest : FreeLoop (g + step &&& m.groupMask) (step + 1) n i) : FreeLoop g step (n + 1) i

/-- The group that a loop from `g` looks at after `j` others. -/
def probed (g : Nat) : Nat → Nat
  | 0 => g
  | j + 1 => probed g j + (j + 1) &&& m.groupMask

end Loops

variable {G : Group} {k : Nat} {m : BasicOrderMap}

theorem findFrom_loop (ref : UInt64) {fuel g step : Nat} {r : Option Nat} (found : m.findFrom G ref fuel g step = some r) :
    ∃ n ≤ fuel, m.FindLoop G ref g step n r := by
  induction fuel generalizing g step with
  | zero => cases found
  | succ fuel ih =>
    rw [findFrom] at found
    split at found
    · rename_i i hit
      obtain rfl := Option.some.inj found
      exact ⟨1, Nat.le_add_left .., .hit hit⟩
    · rename_i missed
      split at found
      · rename_i opened
        obtain rfl := Option.some.inj found
        exact ⟨1, Nat.le_add_left .., .stop missed opened⟩
      · rename_i packed
        obtain ⟨n, bound, rest⟩ := ih found
        exact ⟨n + 1, Nat.succ_le_succ bound, .next missed packed rest⟩

theorem freeFrom_loop {fuel g step i : Nat} (found : m.freeFrom G fuel g step = some i) :
    ∃ n ≤ fuel, m.FreeLoop G g step n i := by
  induction fuel generalizing g step with
  | zero => cases found
  | succ fuel ih =>
    rw [freeFrom] at found
    split at found
    · rename_i free
      obtain rfl := Option.some.inj found
      exact ⟨1, Nat.le_add_left .., .found free⟩
    · rename_i full
      obtain ⟨n, bound, rest⟩ := ih found
      exact ⟨n + 1, Nat.succ_le_succ bound, .next full rest⟩

/-- A table in which every loop ends: the counters are exact and leave an eighth of the
slots empty, a probe comes past every group, and within one round `find` has an answer and
`insert` a free slot, whose counter can go down. -/
structure Ends (G : Group) (m : BasicOrderMap) : Prop where
  groups : ∃ k, m.capacity / G.width = 2 ^ k
  balance : m.growthLeft + m.size + m.tombstones = maxLoad m.capacity
  size : m.size = m.ctrl.countP (· < 0x80)
  tombstones : m.tombstones = m.ctrl.count kCtrlDeleted
  empty : m.capacity / 8 ≤ m.ctrl.count kCtrlEmpty
  triangular : ∀ g < m.capacity / G.width, ∀ j, m.probed g j = (g + j * (j + 1) / 2) % (m.capacity / G.width)
  visits : ∀ g < m.capacity / G.width, ∀ g' < m.capacity / G.width, ∃ j < m.capacity / G.width, m.probed g j = g'
  find : ∀ ref, ∃ n ≤ m.capacity / G.width, ∃ r, m.FindLoop G ref (m.groupIndex (hash ref)) 1 n r
  insert : ∀ ref, ∃ n ≤ m.capacity / G.width, ∃ i, m.FreeLoop G (m.groupIndex (hash ref)) 1 n i ∧
    (m.ctrlAt i = kCtrlEmpty ∨ m.ctrlAt i = kCtrlDeleted ∧ 0 < m.tombstones)
  erase : ∀ i, m.ctrlAt i < 0x80 → 0 < m.size

section

variable (wf : m.WF G k)
include wf

theorem WF.probed_eq {g : Nat} (inside : g < 2 ^ k) (j : Nat) : m.probed g j = visit k g j := by
  induction j with
  | zero => exact (visit_zero inside).symm
  | succ j ih => rw [probed, ih, wf.group_step]

/-- At most seven eighths of the slots are full or tombstones. -/
theorem WF.empty_count : m.capacity / 8 ≤ m.ctrl.count kCtrlEmpty := by
  have counts := length_eq_counts wf.tags
  have growth := wf.growth
  rw [wf.ctrlLength, ← wf.size, ← wf.tombstones] at counts
  rw [maxLoad] at growth
  omega

/-- What the loop of `insert` finds is what `insert` claims. -/
theorem WF.place_loop (ref : UInt64) : ∃ n i, n ≤ m.capacity / G.width ∧
    m.FreeLoop G (m.groupIndex (hash ref)) 1 n i ∧ m.place G ref = some (m.claim ref i, i) ∧
    (m.ctrlAt i = kCtrlEmpty ∨ m.ctrlAt i = kCtrlDeleted ∧ 0 < m.tombstones) := by
  obtain ⟨i, found, inside, free, -⟩ := wf.probe_free ref
  obtain ⟨n, bound, loop⟩ := freeFrom_loop found
  exact ⟨n, i, bound, loop, congrArg (Option.map _) found, wf.free_slot inside free⟩

theorem WF.ends : m.Ends G where
  groups := ⟨k, wf.groups⟩
  balance := wf.growth
  size := wf.size
  tombstones := wf.tombstones
  empty := wf.empty_count
  triangular g inside j := by
    rw [wf.groups] at inside ⊢
    have half : offset j = j * (j + 1) / 2 := by
      have twice := two_mul_offset j
      omega
    rw [wf.probed_eq inside, visit, half]
  visits g inside g' inside' := by
    rw [wf.groups] at inside inside' ⊢
    obtain ⟨j, bound, arrives⟩ := visit_surjective g inside'
    exact ⟨j, bound, (wf.probed_eq inside j).trans arrives⟩
  find ref := by
    obtain ⟨r, found, -⟩ := find_spec wf ref
    obtain ⟨n, bound, loop⟩ := findFrom_loop ref found
    exact ⟨n, bound, r, loop⟩
  insert ref := by
    obtain ⟨n, i, bound, loop, -, slot⟩ := wf.place_loop ref
    exact ⟨n, bound, i, loop, slot⟩
  erase i full := wf.size_pos full

end

end BasicOrderMap

end Itch
