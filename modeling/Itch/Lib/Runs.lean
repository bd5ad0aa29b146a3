import Mathlib.Data.List.Basic
import Mathlib.Data.List.Induction
import Mathlib.Data.Nat.Find
import Mathlib.Order.Monotone.Basic

/-! Runs of a deterministic step function over a list of events. -/
namespace Runs

variable {σ τ ε β γ : Type*} {step : σ → ε → σ} {step' : τ → ε → τ} {ok ok' : σ → ε → Prop}

/-- Every step of the run from a state is `ok` where it is taken. -/
def Every (step : σ → ε → σ) (ok : σ → ε → Prop) : σ → List ε → Prop
  | _, [] => True
  | s, e :: run => ok s e ∧ Every step ok (step s e) run

instance instDecidableEvery [∀ s e, Decidable (ok s e)] : (s : σ) → (run : List ε) → Decidable (Every step ok s run)
  | _, [] => isTrue trivial
  | s, e :: run =>
    have := instDecidableEvery (step s e) run
    inferInstanceAs (Decidable (ok s e ∧ Every step ok (step s e) run))

theorem every_append {s : σ} {run : List ε} {e : ε} :
    Every step ok s (run ++ [e]) ↔ Every step ok s run ∧ ok (run.foldl step s) e := by
  induction run generalizing s with
  | nil => exact ⟨fun every => ⟨trivial, every.1⟩, fun every => ⟨every.2, trivial⟩⟩
  | cons first run ih =>
    rw [List.cons_append, Every, Every, ih, and_assoc]
    rfl

theorem every_append_pair {s : σ} {run : List ε} {a b : ε} : Every step ok s (run ++ [a, b]) ↔
    Every step ok s run ∧ ok (run.foldl step s) a ∧ ok (step (run.foldl step s) a) b := by
  rw [List.append_cons, every_append, every_append, List.foldl_append, and_assoc]
  rfl

theorem every_append_run {s : σ} {run run' : List ε} :
    Every step ok s (run ++ run') ↔ Every step ok s run ∧ Every step ok (run.foldl step s) run' := by
  induction run generalizing s with
  | nil => exact ⟨fun every => ⟨trivial, every⟩, fun every => every.2⟩
  | cons first run ih =>
    rw [List.cons_append, Every, Every, ih, and_assoc]
    rfl

theorem Every.take {s : σ} {run : List ε} (every : Every step ok s run) (k : Nat) : Every step ok s (run.take k) := by
  rw [← List.take_append_drop k run] at every
  exact (every_append_run.mp every).1

theorem Every.imp (weaker : ∀ s e, ok s e → ok' s e) {s : σ} {run : List ε} (every : Every step ok s run) :
    Every step ok' s run := by
  induction run generalizing s with
  | nil => exact trivial
  | cons e run ih => exact ⟨weaker s e every.1, ih every.2⟩

theorem Every.and {s : σ} {run : List ε} (every : Every step ok s run) (every' : Every step ok' s run) :
    Every step (fun s e => ok s e ∧ ok' s e) s run := by
  induction run generalizing s with
  | nil => exact trivial
  | cons e run ih => exact ⟨⟨every.1, every'.1⟩, ih every.2 every'.2⟩

/-- What holds at the start and is kept by every step that is `ok` holds after the run. -/
theorem Every.invariant {inv : σ → Prop} (keeps : ∀ s e, inv s → ok s e → inv (step s e)) {s : σ} {run : List ε}
    (start : inv s) (every : Every step ok s run) : inv (run.foldl step s) := by
  induction run generalizing s with
  | nil => exact start
  | cons e run ih => exact ih (keeps s e start every.1) every.2

/-- What holds at the start and is kept by every step holds after any run. -/
theorem invariant (inv : σ → Prop) (keeps : ∀ s e, inv s → inv (step s e)) {s : σ} (run : List ε) (start : inv s) :
    inv (run.foldl step s) := by
  induction run generalizing s with
  | nil => exact start
  | cons e run ih => exact ih (keeps s e start)

/-- What relates two systems and is kept by every step relates them after the run. -/
theorem Every.simulates {rel : σ → τ → Prop} (keeps : ∀ s t e, rel s t → ok s e → rel (step s e) (step' t e))
    {s : σ} {t : τ} {run : List ε} (start : rel s t) (every : Every step ok s run) :
    rel (run.foldl step s) (run.foldl step' t) := by
  induction run generalizing s t with
  | nil => exact start
  | cons e run ih => exact ih (keeps s t e start every.1) every.2

/-- Where a step of a legal run keeps the invariant exactly if it is `ok`, every state of the
run has it exactly if every step of the run is `ok`. -/
theorem Every.every_iff {legal : σ → ε → Prop} (inv : σ → Prop)
    (keeps : ∀ s e, inv s → legal s e → (inv (step s e) ↔ ok s e)) {s : σ} {run : List ε} (start : inv s)
    (every : Every step legal s run) : (∀ k, inv ((run.take k).foldl step s)) ↔ Every step ok s run := by
  induction run generalizing s with
  | nil => simp [Every, start]
  | cons e run ih =>
    constructor
    · intro always
      have next : inv (step s e) := by simpa using always 1
      refine ⟨(keeps s e start every.1).mp next, (ih next every.2).mp fun k => ?_⟩
      exact always (k + 1)
    · rintro ⟨good, rest⟩ k
      cases k with
      | zero => exact start
      | succ k => exact (ih ((keeps s e start every.1).mpr good) every.2).mpr rest k

/-- A run with a step that is not `ok` has a first one. -/
theorem exists_first_failure {s : σ} {run : List ε} (fails : ¬ Every step ok s run) :
    ∃ front e back, run = front ++ e :: back ∧ Every step ok s front ∧ ¬ ok (front.foldl step s) e := by
  induction run generalizing s with
  | nil => exact absurd trivial fails
  | cons e run ih =>
    by_cases first : ok s e
    · obtain ⟨front, e', back, rfl, every, failure⟩ := ih fun every => fails ⟨first, every⟩
      exact ⟨e :: front, e', back, rfl, ⟨first, every⟩, failure⟩
    · exact ⟨[], e, run, rfl, trivial, first⟩

/-- What the steps of a run give out. -/
def outputs (step : σ → ε → σ) (out : σ → ε → β) : σ → List ε → List β
  | _, [] => []
  | s, e :: run => out s e :: outputs step out (step s e) run

/-- Two outputs that are related in each step of a system are, one by one, over the run. -/
theorem Every.outputs_related {rel : σ → τ → Prop} {R : β → γ → Prop} {out : τ → ε → β} {out' : τ → ε → γ}
    (keeps : ∀ s t e, rel s t → ok s e → rel (step s e) (step' t e))
    (related : ∀ s t e, rel s t → ok s e → R (out t e) (out' t e)) {s : σ} {t : τ} {run : List ε} (start : rel s t)
    (every : Every step ok s run) : List.Forall₂ R (outputs step' out t run) (outputs step' out' t run) := by
  induction run generalizing s t with
  | nil => exact .nil
  | cons e run ih => exact .cons (related s t e start every.1) (ih (keeps s t e start every.1) every.2)

/-- What two related outputs of a run give out last. -/
theorem outputs_last {R : β → γ → Prop} {out : σ → ε → β} {out' : σ → ε → γ} {s : σ} {run : List ε} {e : ε}
    (related : List.Forall₂ R (outputs step out s (run ++ [e])) (outputs step out' s (run ++ [e]))) :
    R (out (run.foldl step s) e) (out' (run.foldl step s) e) := by
  induction run generalizing s with
  | nil => exact (List.forall₂_cons.mp related).1
  | cons first run ih => exact ih (List.forall₂_cons.mp related).2

theorem every_true (s : σ) (run : List ε) : Every step (fun _ _ => True) s run := by
  induction run generalizing s with
  | nil => exact trivial
  | cons e run ih => exact ⟨trivial, ih (step s e)⟩

/-- The same where every run is legal. -/
theorem every_iff (inv : σ → Prop) (keeps : ∀ s e, inv s → (inv (step s e) ↔ ok s e)) {s : σ} {run : List ε}
    (start : inv s) : (∀ k, inv ((run.take k).foldl step s)) ↔ Every step ok s run :=
  (every_true s run).every_iff inv (fun s e holds _ => keeps s e holds) start

section Log

variable {log : σ → List β} {inv : σ → Prop} (keeps : ∀ s e, inv s → inv (step s e))
  (grows : ∀ s e, inv s → log (step s e) = log s ∨ ∃ b, log (step s e) = log s ++ [b])
include keeps grows

/-- A log that steps only add to starts with what it was. -/
theorem log_prefix {s : σ} (holds : inv s) (run : List ε) : log s <+: log (run.foldl step s) := by
  induction run generalizing s with
  | nil => exact List.prefix_rfl
  | cons e run ih =>
    refine List.IsPrefix.trans ?_ (ih (keeps s e holds))
    rcases grows s e holds with same | ⟨b, more⟩
    · exact same ▸ List.prefix_rfl
    · exact more ▸ List.prefix_append ..

theorem log_length_le {s : σ} (holds : inv s) (run : List ε) : (log (run.foldl step s)).length ≤ (log s).length + run.length := by
  induction run generalizing s with
  | nil => exact Nat.le_refl _
  | cons e run ih =>
    have rest := ih (keeps s e holds)
    rw [List.foldl_cons, List.length_cons]
    rcases grows s e holds with same | ⟨b, more⟩
    · rw [same] at rest
      omega
    · rw [more, List.length_append, List.length_singleton] at rest
      omega

/-- Where every step adds at most one entry to a log, there is a first step after which the
log has its first `k` entries, and it comes no earlier the larger `k` is. -/
theorem exists_growth {s : σ} (holds : inv s) (run : List ε) (start : log s = []) :
    ∃ first : Nat → Nat, Monotone first ∧ ∀ k ≤ (log (run.foldl step s)).length,
      first k ≤ run.length ∧ log ((run.take (first k)).foldl step s) = (log (run.foldl step s)).take k := by
  have ends : ∀ k, ∃ i, min k (log (run.foldl step s)).length ≤ (log ((run.take i).foldl step s)).length := fun k =>
    ⟨run.length, by rw [List.take_length]; exact Nat.min_le_right ..⟩
  refine ⟨fun k => Nat.find (ends k), fun j k le => Nat.find_mono fun i reached => ?_, fun k le => ?_⟩
  · omega
  · have reached := Nat.find_spec (ends k)
    have least : Nat.find (ends k) ≤ run.length := Nat.find_min' (ends k) (by
      rw [List.take_length]
      exact Nat.min_le_right ..)
    have earlier : ∀ i < Nat.find (ends k), _ := fun i before => Nat.find_min (ends k) before
    dsimp only
    generalize Nat.find (ends k) = i at reached least earlier ⊢
    have front := log_prefix keeps grows (invariant inv keeps (run.take i) holds) (run.drop i)
    rw [← List.foldl_append, List.take_append_drop] at front
    have length : (log ((run.take i).foldl step s)).length = k := by
      cases i with
      | zero =>
        rw [List.take_zero, List.foldl_nil, start, List.length_nil] at reached ⊢
        omega
      | succ i =>
        have short := earlier i i.lt_succ_self
        rw [List.take_succ_eq_append_getElem least, List.foldl_append, List.foldl_cons, List.foldl_nil] at reached ⊢
        rcases grows ((run.take i).foldl step s) run[i] (invariant inv keeps (run.take i) holds) with same | ⟨b, more⟩
        · rw [same] at reached
          omega
        · rw [more, List.length_append, List.length_singleton] at reached ⊢
          omega
    exact ⟨least, length ▸ List.prefix_iff_eq_take.mp front⟩

/-- Each entry of a log came with one of the steps. -/
theorem exists_step {s : σ} (holds : inv s) (start : log s = []) (run : List ε) {k : Nat}
    (inside : k < (log (run.foldl step s)).length) :
    ∃ i < run.length, log ((run.take i).foldl step s) = (log (run.foldl step s)).take k ∧
      log ((run.take (i + 1)).foldl step s) = (log (run.foldl step s)).take (k + 1) := by
  induction run using List.reverseRecOn with
  | nil =>
    rw [List.foldl_nil, start] at inside
    cases inside
  | append_singleton run e ih =>
    have front : ∀ i ≤ run.length, (run ++ [e]).take i = run.take i := fun i le => List.take_append_of_le_length le
    have whole : (run ++ [e]).take (run.length + 1) = run ++ [e] := List.take_of_length_le (by simp)
    have grown := grows (run.foldl step s) e (invariant inv keeps run holds)
    have kept : ∀ j ≤ (log (run.foldl step s)).length,
        (log ((run ++ [e]).foldl step s)).take j = (log (run.foldl step s)).take j := by
      intro j le
      rw [List.foldl_append, List.foldl_cons, List.foldl_nil]
      rcases grown with same | ⟨b, more⟩
      · rw [same]
      · rw [more, List.take_append_of_le_length le]
    rw [List.length_append, List.length_singleton]
    by_cases old : k < (log (run.foldl step s)).length
    · obtain ⟨i, before, here, next⟩ := ih old
      refine ⟨i, by omega, ?_, ?_⟩
      · rw [front i (by omega), kept k (by omega), here]
      · rw [front (i + 1) (by omega), kept (k + 1) (by omega), next]
    · refine ⟨run.length, Nat.lt_succ_self _, ?_, ?_⟩
      · rw [front _ le_rfl, List.take_length]
        rw [List.foldl_append, List.foldl_cons, List.foldl_nil] at inside ⊢
        rcases grown with same | ⟨b, more⟩
        · rw [same] at inside
          omega
        · rw [more, List.length_append, List.length_singleton] at inside
          rw [more, List.take_append_of_le_length (by omega), List.take_of_length_le (by omega)]
      · rw [whole]
        have all : (log ((run ++ [e]).foldl step s)).length ≤ k + 1 := by
          rw [List.foldl_append, List.foldl_cons, List.foldl_nil]
          rcases grown with same | ⟨b, more⟩
          · rw [same]
            omega
          · rw [more, List.length_append, List.length_singleton]
            omega
        exact (List.take_of_length_le all).symm

end Log

end Runs
