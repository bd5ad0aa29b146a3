import Mathlib.Tactic.TypeStar

/-- A computation that looks at an environment and logs what it looks at. -/
def Traced (ρ ε α : Type*) := ρ → α × List ε

namespace Traced

variable {ρ ε : Type} {α β : Type}

instance : Monad (Traced ρ ε) where
  pure a := fun _ => (a, [])
  bind x f := fun env => ((f (x env).1 env).1, (x env).2 ++ (f (x env).1 env).2)

def value (x : Traced ρ ε α) (env : ρ) : α := (x env).1

def log (x : Traced ρ ε α) (env : ρ) : List ε := (x env).2

/-- Everything logged satisfies `P`. -/
def Within (P : ε → Prop) (env : ρ) (x : Traced ρ ε α) : Prop := ∀ e ∈ x.log env, P e

variable {P : ε → Prop} {env : ρ} {x : Traced ρ ε α}

@[simp] theorem value_bind (f : α → Traced ρ ε β) : (x >>= f).value env = (f (x.value env)).value env := rfl

@[simp] theorem log_bind (f : α → Traced ρ ε β) : (x >>= f).log env = x.log env ++ (f (x.value env)).log env := rfl

theorem log_ite {c : Prop} [Decidable c] {y : Traced ρ ε α} :
    (if c then x else y).log env = if c then x.log env else y.log env := by
  split <;> rfl

theorem value_ite {c : Prop} [Decidable c] {y : Traced ρ ε α} :
    (if c then x else y).value env = if c then x.value env else y.value env := by
  split <;> rfl

theorem within_pure (a : α) : Within P env (pure a : Traced ρ ε α) := fun _ member => by cases member

theorem within_bind {f : α → Traced ρ ε β} (first : Within P env x) (rest : Within P env (f (x.value env))) :
    Within P env (x >>= f) := by
  intro e member
  rcases List.mem_append.mp member with early | late
  · exact first e early
  · exact rest e late

theorem within_map {f : α → β} (within : Within P env x) : Within P env (f <$> x) :=
  within_bind within (within_pure _)

theorem Within.mono {Q : ε → Prop} (within : Within P env x) (weaker : ∀ e, P e → Q e) : Within Q env x :=
  fun e member => weaker e (within e member)

theorem within_ite {c : Prop} [Decidable c] {y : Traced ρ ε α} (yes : c → Within P env x) (no : ¬ c → Within P env y) :
    Within P env (if c then x else y) := by
  split <;> rename_i holds
  · exact yes holds
  · exact no holds

end Traced
