import Mathlib.Data.List.Basic

/-! Programs with a state that may fail, and what holds when they end. `fail` says what is
claimed of a failure: `True` for a partial result, `False` for a total one. -/
namespace Fallible

variable {σ α β : Type} {fail : Prop} {s : σ}

/-- From `s` the program ends with `post`. -/
def Ends (fail : Prop) (x : StateT σ Option α) (post : α → σ → Prop) (s : σ) : Prop :=
  (x s).elim fail fun r => post r.1 r.2

variable {x : StateT σ Option α} {post post' : α → σ → Prop}

@[simp] theorem ends_pure (a : α) : Ends fail (pure a : StateT σ Option α) post s ↔ post a s := Iff.rfl

@[simp] theorem ends_bind {f : α → StateT σ Option β} {post : β → σ → Prop} :
    Ends fail (x >>= f) post s ↔ Ends fail x (fun a => Ends fail (f a) post) s := by
  change ((x s).bind fun r => f r.1 r.2).elim fail _ ↔ (x s).elim fail _
  cases x s with
  | none => exact Iff.rfl
  | some r => exact Iff.rfl

@[simp] theorem ends_get {post : σ → σ → Prop} : Ends fail (get : StateT σ Option σ) post s ↔ post s s := Iff.rfl

@[simp] theorem ends_set {t : σ} {post : PUnit → σ → Prop} : Ends fail (set t : StateT σ Option PUnit) post s ↔ post ⟨⟩ t :=
  Iff.rfl

@[simp] theorem ends_modify {f : σ → σ} {post : PUnit → σ → Prop} :
    Ends fail (modify f : StateT σ Option PUnit) post s ↔ post ⟨⟩ (f s) := Iff.rfl

theorem ends_ite {c : Prop} [Decidable c] {y : StateT σ Option α} :
    Ends fail (if c then x else y) post s ↔ if c then Ends fail x post s else Ends fail y post s := by
  split <;> exact Iff.rfl

theorem Ends.mono (ends : Ends fail x post s) (weaker : ∀ a t, post a t → post' a t) : Ends fail x post' s := by
  unfold Ends at ends ⊢
  cases result : x s with
  | none => rwa [result] at ends
  | some r =>
    rw [result] at ends
    exact weaker _ _ ends

/-- What two results say together. -/
theorem Ends.and (ends : Ends fail x post s) {fail' : Prop} (ends' : Ends fail' x post' s) :
    Ends fail x (fun a t => post a t ∧ post' a t) s := by
  unfold Ends at ends ends' ⊢
  cases result : x s with
  | none => rwa [result] at ends
  | some r =>
    rw [result] at ends ends'
    exact ⟨ends, ends'⟩

/-- A total result is one without failure. -/
theorem Ends.exists (ends : Ends False x post s) : ∃ r, x s = some r ∧ post r.1 r.2 := by
  unfold Ends at ends
  cases result : x s with
  | none =>
    rw [result] at ends
    exact absurd ends id
  | some r =>
    rw [result] at ends
    exact ⟨r, rfl, ends⟩

theorem Ends.of_run (ends : Ends fail x post s) {r : α × σ} (run : x s = some r) : post r.1 r.2 := by
  unfold Ends at ends
  rwa [run] at ends

/-- What the `i`-th turn of a loop takes from `inv i` to `inv (i + 1)` holds after `n` turns. -/
theorem Ends.forM {inv : Nat → σ → Prop} {body : Nat → StateT σ Option PUnit} {n : Nat}
    (turn : ∀ i < n, ∀ s, inv i s → Ends fail (body i) (fun _ => inv (i + 1)) s) (start : inv 0 s) :
    Ends fail (forM (List.range n) body) (fun _ => inv n) s := by
  induction n with
  | zero => exact start
  | succ n ih =>
    have before := ih fun i less => turn i (Nat.lt_succ_of_lt less)
    rw [List.range_succ, List.forM_append, ends_bind]
    refine before.mono fun _ t holds => ?_
    have last := turn n (Nat.lt_succ_self n) t holds
    exact ends_bind.mpr (last.mono fun _ _ after => after)

end Fallible
