import Itch.Lib.Runs
import Mathlib.Algebra.Group.Basic
import Mathlib.Data.List.Basic

/-! Runs whose events come in another order. A state is read as a family of cells and a
total; an event reads and writes the cells that it uses and adds to the total. -/
namespace Reorder

variable {σ ε ρ ν M : Type*}

/-- Neighbours that use different cells swapped, any number of times. -/
inductive Swaps (uses : ε → List ρ) : List ε → List ε → Prop
  | refl (run : List ε) : Swaps uses run run
  | swap {a b : ε} (apart : (uses a).Disjoint (uses b)) (rest : List ε) : Swaps uses (a :: b :: rest) (b :: a :: rest)
  | cons (e : ε) {run run' : List ε} (swaps : Swaps uses run run') : Swaps uses (e :: run) (e :: run')
  | trans {run run' run'' : List ε} (swaps : Swaps uses run run') (more : Swaps uses run' run'') : Swaps uses run run''

section Swaps

variable {uses : ε → List ρ}

theorem Swaps.append (front : List ε) {run run' : List ε} (swaps : Swaps uses run run') :
    Swaps uses (front ++ run) (front ++ run') := by
  induction front with
  | nil => exact swaps
  | cons e front ih => exact .cons e ih

/-- An event moves behind the events that use none of its cells. -/
theorem Swaps.move {e : ε} {front : List ε} (apart : ∀ a ∈ front, (uses e).Disjoint (uses a)) (back : List ε) :
    Swaps uses (e :: (front ++ back)) (front ++ e :: back) := by
  induction front with
  | nil => exact .refl _
  | cons a front ih =>
    have behind := ih fun b member => apart b (List.mem_cons_of_mem a member)
    exact .trans (.swap (apart a List.mem_cons_self) _) (.cons a behind)

/-- Two runs in which the events on each cell are the same and in the same order differ
by swaps, if every event uses a cell. -/
theorem Swaps.of_filter [DecidableEq ρ] {run run' : List ε} (used : ∀ e, uses e ≠ [])
    (same : ∀ r, run.filter (r ∈ uses ·) = run'.filter (r ∈ uses ·)) : Swaps uses run run' := by
  induction run generalizing run' with
  | nil =>
    cases run' with
    | nil => exact .refl []
    | cons e run' =>
      obtain ⟨r, uses_r⟩ := List.exists_mem_of_ne_nil _ (used e)
      have first := same r
      rw [List.filter_cons_of_pos (by simpa using uses_r)] at first
      cases first
  | cons e run ih =>
    obtain ⟨r, uses_r⟩ := List.exists_mem_of_ne_nil _ (used e)
    have first := (same r).symm
    rw [List.filter_cons_of_pos (by simpa using uses_r)] at first
    obtain ⟨front, back, rfl, others, -, -⟩ := List.filter_eq_cons_iff.mp first
    -- no event before this one uses any of its cells
    have unused : ∀ r' ∈ uses e, front.filter (r' ∈ uses ·) = [] := by
      intro r' uses_r'
      have here := same r'
      rw [List.filter_cons_of_pos (by simpa using uses_r'), List.filter_append] at here
      cases before : front.filter (r' ∈ uses ·) with
      | nil => rfl
      | cons a rest =>
        rw [before] at here
        obtain rfl : e = a := (List.cons.inj here).1
        have member : e ∈ front := (List.mem_filter.mp (before ▸ List.mem_cons_self)).1
        exact absurd uses_r (by simpa using others e member)
    have apart : ∀ a ∈ front, (uses e).Disjoint (uses a) := by
      intro a member r' left right
      have found : a ∈ front.filter (r' ∈ uses ·) := List.mem_filter.mpr ⟨member, by simpa using right⟩
      rw [unused r' left] at found
      cases found
    refine .trans (.cons e (ih fun r' => ?_)) (.move apart back)
    have here := same r'
    rw [List.filter_append] at here ⊢
    by_cases uses_r' : r' ∈ uses e
    · rw [List.filter_cons_of_pos (by simpa using uses_r'), List.filter_cons_of_pos (by simpa using uses_r'),
        unused r' uses_r'] at here
      rw [unused r' uses_r']
      exact (List.cons.inj here).2
    · rwa [List.filter_cons_of_neg (by simpa using uses_r'), List.filter_cons_of_neg (by simpa using uses_r')] at here

/-- Swaps keep the events on each cell in their order. -/
theorem Swaps.filter [DecidableEq ρ] {run run' : List ε} (swaps : Swaps uses run run') (r : ρ) :
    run.filter (r ∈ uses ·) = run'.filter (r ∈ uses ·) := by
  induction swaps with
  | refl run => rfl
  | @swap a b apart rest =>
    by_cases left : r ∈ uses a
    · have right : r ∉ uses b := fun shared => apart left shared
      simp [left, right]
    · simp [List.filter_cons, left]
  | cons e swaps ih => rw [List.filter_cons, List.filter_cons, ih]
  | trans swaps more ih ih' => exact ih.trans ih'

end Swaps

/-- States that agree on the cells and in the total. -/
structure Same (cell : σ → ρ → ν) (total : σ → M) (s t : σ) : Prop where
  cells : ∀ r, cell s r = cell t r
  total : total s = total t

variable {step : σ → ε → σ} {uses : ε → List ρ} {cell : σ → ρ → ν} {total : σ → M} {ok : σ → ε → Prop}

theorem Same.trans {s t u : σ} (same : Same cell total s t) (next : Same cell total t u) : Same cell total s u where
  cells r := (same.cells r).trans (next.cells r)
  total := same.total.trans next.total

variable [AddCommSemigroup M]

/-- What an event does depends on the cells it uses: whether it is `ok`, what these cells
hold after it and what it adds to the total. It leaves the other cells. -/
structure Local (step : σ → ε → σ) (uses : ε → List ρ) (cell : σ → ρ → ν) (total : σ → M)
    (ok : σ → ε → Prop) : Prop where
  frame : ∀ s e r, r ∉ uses e → cell (step s e) r = cell s r
  writes : ∀ s t e, (∀ r ∈ uses e, cell s r = cell t r) → ∀ r ∈ uses e, cell (step s e) r = cell (step t e) r
  adds : ∀ s t e, (∀ r ∈ uses e, cell s r = cell t r) →
    ∃ d, total (step s e) = total s + d ∧ total (step t e) = total t + d
  guard : ∀ s t e, (∀ r ∈ uses e, cell s r = cell t r) → ok s e → ok t e

section Local

variable (system : Local step uses cell total ok)
include system

theorem Local.congr {s t : σ} (same : Same cell total s t) (e : ε) : Same cell total (step s e) (step t e) where
  cells r := by
    by_cases used : r ∈ uses e
    · exact system.writes s t e (fun r _ => same.cells r) r used
    · rw [system.frame s e r used, system.frame t e r used, same.cells r]
  total := by
    obtain ⟨d, left, right⟩ := system.adds s t e fun r _ => same.cells r
    rw [left, right, same.total]

theorem Local.run_congr {s t : σ} (same : Same cell total s t) (run : List ε) :
    Same cell total (run.foldl step s) (run.foldl step t) := by
  induction run generalizing s t with
  | nil => exact same
  | cons e run ih => exact ih (system.congr same e)

/-- The cells of an event are as they were before one that uses none of them. -/
theorem Local.untouched {a b : ε} (apart : (uses a).Disjoint (uses b)) (s : σ) :
    ∀ r ∈ uses b, cell (step s a) r = cell s r :=
  fun r used => system.frame s a r fun shared => apart shared used

theorem Local.commute {a b : ε} (apart : (uses a).Disjoint (uses b)) (s : σ) :
    Same cell total (step (step s a) b) (step (step s b) a) where
  cells r := by
    have first := system.writes _ _ b (system.untouched apart s)
    have second := system.writes _ _ a (system.untouched (List.disjoint_symm apart) s)
    by_cases right : r ∈ uses b
    · have left : r ∉ uses a := fun shared => apart shared right
      rw [first r right, system.frame _ a r left]
    · rw [system.frame _ b r right]
      by_cases left : r ∈ uses a
      · exact (second r left).symm
      · rw [system.frame _ a r left, system.frame _ a r left, system.frame _ b r right]
  total := by
    obtain ⟨d, first, alone⟩ := system.adds _ _ b (system.untouched apart s)
    obtain ⟨d', second, alone'⟩ := system.adds _ _ a (system.untouched (List.disjoint_symm apart) s)
    rw [first, alone', second, alone, add_right_comm]

theorem Local.swaps {run run' : List ε} (swaps : Swaps uses run run') (s : σ) :
    Same cell total (run.foldl step s) (run'.foldl step s) := by
  induction swaps generalizing s with
  | refl run => exact ⟨fun r => rfl, rfl⟩
  | swap apart rest => exact system.run_congr (system.commute apart s) rest
  | cons e swaps ih => exact ih (step s e)
  | trans swaps more ih ih' => exact (ih s).trans (ih' s)

theorem Local.every_congr {s t : σ} (same : Same cell total s t) {run : List ε} (every : Runs.Every step ok s run) :
    Runs.Every step ok t run := by
  induction run generalizing s t with
  | nil => exact trivial
  | cons e run ih => exact ⟨system.guard s t e (fun r _ => same.cells r) every.1, ih (system.congr same e) every.2⟩

/-- What is `ok` stays `ok` in another order. -/
theorem Local.swaps_every {run run' : List ε} (swaps : Swaps uses run run') {s : σ} (every : Runs.Every step ok s run) :
    Runs.Every step ok s run' := by
  induction swaps generalizing s with
  | refl run => exact every
  | @swap a b apart rest =>
    obtain ⟨first, second, others⟩ := every
    refine ⟨system.guard _ _ b (system.untouched apart s) second, ?_, system.every_congr (system.commute apart s) others⟩
    exact system.guard _ _ a (fun r used => (system.untouched (List.disjoint_symm apart) s r used).symm) first
  | cons e swaps ih => exact ⟨every.1, ih every.2⟩
  | trans swaps more ih ih' => exact ih' (ih every)

end Local

end Reorder
