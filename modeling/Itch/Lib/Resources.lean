import Mathlib.Data.List.Nodup
import Mathlib.Data.Set.Lattice
import Mathlib.Order.CompletePartialOrder

/-! Programs that acquire and release resources of a system, and a logic of what they hold. -/
namespace Resources

/-- A program over resources in `ρ`: it ends, asks the system for a resource, gives one back or
makes a call that only answers. A granted resource is made from a number of the system's choice;
any call may fail. -/
inductive Prog (ρ α : Type) where
  | done (a : α)
  | acquire (make : Nat → ρ) (next : Option Nat → Prog ρ α)
  | release (r : ρ) (next : Prog ρ α)
  | ask (next : Option Int → Prog ρ α)

namespace Prog

variable {ρ α β : Type}

def bind : Prog ρ α → (α → Prog ρ β) → Prog ρ β
  | .done a, f => f a
  | .acquire make next, f => .acquire make fun n => (next n).bind f
  | .release r next, f => .release r (next.bind f)
  | .ask next, f => .ask fun x => (next x).bind f

def releaseAll (l : List ρ) (next : Prog ρ α) : Prog ρ α := l.foldr .release next

end Prog

variable {ρ α β : Type} (needs : ρ → Option ρ)

/-- A run of a program from what is held, to its result and what is held then, or to `none` at a
misuse: a release of what is not held or still needed, or a resource over one that is gone. -/
inductive Exec : Prog ρ α → Set ρ → Option (α × Set ρ) → Prop
  | done (a : α) (held : Set ρ) : Exec (.done a) held (some (a, held))
  | granted {make : Nat → ρ} {next : Option Nat → Prog ρ α} {held : Set ρ} {out : Option (α × Set ρ)} {n : Nat}
      (fresh : make n ∉ held) (met : ∀ r ∈ needs (make n), r ∈ held)
      (rest : Exec (next (some n)) (insert (make n) held) out) : Exec (.acquire make next) held out
  | refused {make : Nat → ρ} {next : Option Nat → Prog ρ α} {held : Set ρ} {out : Option (α × Set ρ)}
      (rest : Exec (next none) held out) : Exec (.acquire make next) held out
  | dangling {make : Nat → ρ} {next : Option Nat → Prog ρ α} {held : Set ρ} {n : Nat} {r : ρ}
      (need : r ∈ needs (make n)) (gone : r ∉ held) : Exec (.acquire make next) held none
  | released {r : ρ} {next : Prog ρ α} {held : Set ρ} {out : Option (α × Set ρ)} (own : r ∈ held)
      (free : ∀ s ∈ held, needs s ≠ some r) (rest : Exec next (held \ {r}) out) : Exec (.release r next) held out
  | misused {r : ρ} {next : Prog ρ α} {held : Set ρ} (wrong : r ∈ held → ∃ s ∈ held, needs s = some r) :
      Exec (.release r next) held none
  | answered {next : Option Int → Prog ρ α} {held : Set ρ} {out : Option (α × Set ρ)} (x : Option Int)
      (rest : Exec (next x) held out) : Exec (.ask next) held out

/-- A run of two programs is a run of both, or stops in the first. -/
theorem Exec.of_bind {p : Prog ρ α} {f : α → Prog ρ β} {held : Set ρ} {out : Option (β × Set ρ)}
    (run : Exec needs (p.bind f) held out) :
    (∃ a mid, Exec needs p held (some (a, mid)) ∧ Exec needs (f a) mid out) ∨ (Exec needs p held none ∧ out = none) := by
  induction p generalizing held with
  | done a => exact .inl ⟨a, held, .done a held, run⟩
  | acquire make next ih =>
    cases run with
    | granted fresh met rest =>
      rcases ih _ rest with ⟨a, mid, first, second⟩ | ⟨first, stop⟩
      · exact .inl ⟨a, mid, .granted fresh met first, second⟩
      · exact .inr ⟨.granted fresh met first, stop⟩
    | refused rest =>
      rcases ih _ rest with ⟨a, mid, first, second⟩ | ⟨first, stop⟩
      · exact .inl ⟨a, mid, .refused first, second⟩
      · exact .inr ⟨.refused first, stop⟩
    | dangling need gone => exact .inr ⟨.dangling need gone, rfl⟩
  | release r next ih =>
    cases run with
    | released own free rest =>
      rcases ih rest with ⟨a, mid, first, second⟩ | ⟨first, stop⟩
      · exact .inl ⟨a, mid, .released own free first, second⟩
      · exact .inr ⟨.released own free first, stop⟩
    | misused wrong => exact .inr ⟨.misused wrong, rfl⟩
  | ask next ih =>
    cases run with
    | answered x rest =>
      rcases ih x rest with ⟨a, mid, first, second⟩ | ⟨first, stop⟩
      · exact .inl ⟨a, mid, .answered x first, second⟩
      · exact .inr ⟨.answered x first, stop⟩

/-- Everything that is needed is held too. -/
def Closed (held : Set ρ) : Prop := ∀ s ∈ held, ∀ r ∈ needs s, r ∈ held

theorem closed_empty : Closed needs ∅ := fun _ member => absurd member (Set.notMem_empty _)

theorem Closed.union {needs : ρ → Option ρ} {own own' : Set ρ} (closed : Closed needs own) (closed' : Closed needs own') :
    Closed needs (own ∪ own') := by
  rintro s (member | member) r need
  · exact .inl (closed s member r need)
  · exact .inr (closed' s member r need)

/-- From exactly what it owns the program runs without misuse to a result and resources that
satisfy `post`, and leaves alone whatever others hold. -/
def Triple (own : Set ρ) (p : Prog ρ α) (post : α → Set ρ → Prop) : Prop :=
  Closed needs own → ∀ frame, Closed needs frame → Disjoint own frame → ∀ out, Exec needs p (own ∪ frame) out →
    ∃ a own', out = some (a, own' ∪ frame) ∧ post a own' ∧ Closed needs own' ∧ Disjoint own' frame

namespace Triple

variable {needs} {own : Set ρ} {post : α → Set ρ → Prop}

theorem done {a : α} (holds : post a own) : Triple needs own (.done a) post := by
  intro closed frame _ apart out run
  cases run
  exact ⟨a, own, rfl, holds, closed, apart⟩

theorem ask {next : Option Int → Prog ρ α} (rest : ∀ x, Triple needs own (next x) post) :
    Triple needs own (.ask next) post := by
  intro closed frame others apart out run
  cases run with
  | answered x run => exact rest x closed frame others apart out run

/-- A fresh resource joins what is owned. -/
theorem acquire {make : Nat → ρ} {next : Option Nat → Prog ρ α} (met : ∀ n, ∀ r ∈ needs (make n), r ∈ own)
    (refused : Triple needs own (next none) post)
    (granted : ∀ n, make n ∉ own → Triple needs (insert (make n) own) (next (some n)) post) :
    Triple needs own (.acquire make next) post := by
  intro closed frame others apart out run
  cases run with
  | @granted _ _ _ _ n fresh _ run =>
    have new : make n ∉ own := fun member => fresh (.inl member)
    rw [← Set.insert_union] at run
    refine granted n new ?_ frame others ?_ out run
    · rintro s (rfl | member) r need
      · exact .inr (met n r need)
      · exact .inr (closed s member r need)
    · exact Set.disjoint_insert_left.mpr ⟨fun member => fresh (.inr member), apart⟩
  | refused run => exact refused closed frame others apart out run
  | dangling need gone => exact absurd (.inl (met _ _ need)) gone

/-- What nothing owned needs can be given back; what others hold does not need it either. -/
theorem release {r : ρ} {next : Prog ρ α} (member : r ∈ own) (free : ∀ s ∈ own, needs s ≠ some r)
    (rest : Triple needs (own \ {r}) next post) : Triple needs own (.release r next) post := by
  intro closed frame others apart out run
  have away : r ∉ frame := Set.disjoint_left.mp apart member
  have unneeded : ∀ s ∈ own ∪ frame, needs s ≠ some r := by
    rintro s (here | there) need
    · exact free s here need
    · exact away (others s there r need)
  cases run with
  | released _ _ run =>
    rw [Set.union_sdiff_distrib, Set.sdiff_singleton_eq_self away] at run
    refine rest ?_ frame others (apart.mono_left Set.sdiff_subset) out run
    intro s here r' need
    refine ⟨closed s here.1 r' need, ?_⟩
    rintro rfl
    exact free s here.1 need
  | misused wrong =>
    obtain ⟨s, here, need⟩ := wrong (.inl member)
    exact absurd need (unneeded s here)

theorem bind {p : Prog ρ α} {f : α → Prog ρ β} {post' : β → Set ρ → Prop} (first : Triple needs own p post)
    (second : ∀ a own', post a own' → Triple needs own' (f a) post') : Triple needs own (p.bind f) post' := by
  intro closed frame others apart out run
  rcases Exec.of_bind needs run with ⟨a, mid, start, rest⟩ | ⟨start, -⟩
  · obtain ⟨a', own', same, holds, closed', apart'⟩ := first closed frame others apart _ start
    obtain ⟨rfl, rfl⟩ := Prod.mk.inj (Option.some.inj same)
    exact second a own' holds closed' frame others apart' out rest
  · obtain ⟨a, own', same, -⟩ := first closed frame others apart _ start
    cases same

theorem imp {p : Prog ρ α} {post' : α → Set ρ → Prop} (triple : Triple needs own p post)
    (weaker : ∀ a own', post a own' → post' a own') : Triple needs own p post' := by
  intro closed frame others apart out run
  obtain ⟨a, own', same, holds, rest⟩ := triple closed frame others apart out run
  exact ⟨a, own', same, weaker a own' holds, rest⟩

/-- What is owned besides stays. -/
theorem frame {p : Prog ρ α} {more : Set ρ} (triple : Triple needs own p post) (closed : Closed needs own)
    (closed' : Closed needs more) (apart : Disjoint own more) :
    Triple needs (own ∪ more) p fun a all => ∃ own', all = own' ∪ more ∧ post a own' ∧ Closed needs own' ∧ Disjoint own' more := by
  intro _ frame others apart' out run
  rw [Set.union_assoc] at run
  have both := Set.disjoint_union_left.mp apart'
  obtain ⟨a, own', same, holds, kept, away⟩ :=
    triple closed (more ∪ frame) (closed'.union others) (Set.disjoint_union_right.mpr ⟨apart, both.1⟩) out run
  obtain ⟨beside, beyond⟩ := Set.disjoint_union_right.mp away
  refine ⟨a, own' ∪ more, by rw [same, Set.union_assoc], ⟨own', rfl, holds, kept, beside⟩, kept.union closed', ?_⟩
  exact Set.disjoint_union_left.mpr ⟨beyond, both.2⟩

section List

variable {l : List ρ}

theorem acquire_list {make : Nat → ρ} {next : Option Nat → Prog ρ α} (met : ∀ n, ∀ r ∈ needs (make n), r ∈ l)
    (refused : Triple needs {r | r ∈ l} (next none) post)
    (granted : ∀ n, make n ∉ l → Triple needs {r | r ∈ make n :: l} (next (some n)) post) :
    Triple needs {r | r ∈ l} (.acquire make next) post := by
  refine acquire met refused fun n fresh => ?_
  have joined : insert (make n) {r | r ∈ l} = {r | r ∈ make n :: l} := by
    ext r
    exact List.mem_cons.symm
  rw [joined]
  exact granted n fresh

theorem release_list [DecidableEq ρ] {r : ρ} {next : Prog ρ α} (distinct : l.Nodup) (member : r ∈ l)
    (free : ∀ s ∈ l, needs s ≠ some r) (rest : Triple needs {s | s ∈ l.erase r} next post) :
    Triple needs {s | s ∈ l} (.release r next) post := by
  refine release member free ?_
  have remaining : {s | s ∈ l} \ {r} = {s | s ∈ l.erase r} := by
    ext s
    exact and_comm.trans (distinct.mem_erase_iff).symm
  rw [remaining]
  exact rest

/-- Resources are given back in an order in which none is needed by a later one. -/
theorem releaseAll {next : Prog ρ α} (distinct : l.Nodup) (ordered : l.Pairwise fun r s => needs s ≠ some r)
    (alone : ∀ r ∈ l, needs r ≠ some r) (rest : Triple needs ∅ next post) :
    Triple needs {r | r ∈ l} (Prog.releaseAll l next) post := by
  induction l with
  | nil =>
    have none : {r | r ∈ ([] : List ρ)} = ∅ := Set.eq_empty_of_forall_notMem fun r => List.not_mem_nil
    rw [none]
    exact rest
  | cons r l ih =>
    obtain ⟨fresh, distinct⟩ := List.nodup_cons.mp distinct
    obtain ⟨free, ordered⟩ := List.pairwise_cons.mp ordered
    have remaining : {s | s ∈ r :: l} \ {r} = {s | s ∈ l} := by
      ext s
      constructor
      · rintro ⟨member, other⟩
        exact (List.mem_cons.mp member).resolve_left other
      · intro member
        refine ⟨List.mem_cons_of_mem r member, ?_⟩
        rintro rfl
        exact fresh member
    refine release List.mem_cons_self (fun s member => ?_) ?_
    · rcases List.mem_cons.mp member with rfl | later
      · exact alone s List.mem_cons_self
      · exact free s later
    · rw [remaining]
      exact ih distinct ordered fun s member => alone s (List.mem_cons_of_mem r member)

end List

end Triple

/-- A program that owns nothing at the start. -/
theorem Triple.run {p : Prog ρ α} {post : α → Set ρ → Prop} {needs : ρ → Option ρ} (triple : Triple needs ∅ p post)
    {out : Option (α × Set ρ)} (run : Exec needs p ∅ out) : ∃ a own, out = some (a, own) ∧ post a own := by
  obtain ⟨a, own, same, holds, -⟩ :=
    triple (closed_empty needs) ∅ (closed_empty needs) (Set.disjoint_empty _) out (by rwa [Set.union_empty])
  rw [Set.union_empty] at same
  exact ⟨a, own, same, holds⟩

end Resources
