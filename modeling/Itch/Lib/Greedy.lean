import Mathlib.Data.List.Infix

/-! Cutting a list into groups that fit, each as long as it can be. -/
namespace Greedy

variable {α : Type*} (fits : List α → Prop)

/-- A list cut into groups that are not empty and fit. -/
structure Split (l : List α) (groups : List (List α)) : Prop where
  flatten : groups.flatten = l
  nonempty : ∀ g ∈ groups, g ≠ []
  fit : ∀ g ∈ groups, fits g

/-- The groups that are closed and the one that is still open. -/
structure Pack (α : Type*) where
  closed : List (List α) := []
  current : List α := []

/-- Puts an element into the open group if that still fits, and into a new one otherwise. -/
def Pack.push [DecidablePred fits] (p : Pack α) (a : α) : Pack α :=
  if fits (p.current ++ [a]) then { p with current := p.current ++ [a] }
  else { closed := p.closed ++ [p.current], current := [a] }

/-- All groups, once the open one is closed. -/
def Pack.groups (p : Pack α) : List (List α) := if p.current = [] then p.closed else p.closed ++ [p.current]

variable {fits}

namespace Split

variable {l : List α} {groups : List (List α)} {a : α}

theorem ne_nil (split : Split fits l groups) (some : l ≠ []) : groups ≠ [] := by
  rintro rfl
  exact some split.flatten.symm

theorem snoc (split : Split fits l groups) {g : List α} (some : g ≠ []) (fit : fits g) :
    Split fits (l ++ g) (groups ++ [g]) where
  flatten := by rw [List.flatten_append, split.flatten, List.flatten_singleton]
  nonempty := by
    intro h member
    rcases List.mem_append.mp member with old | new
    · exact split.nonempty h old
    · exact List.mem_singleton.mp new ▸ some
  fit := by
    intro h member
    rcases List.mem_append.mp member with old | new
    · exact split.fit h old
    · exact List.mem_singleton.mp new ▸ fit

/-- The last element stands at the end of the last group. -/
theorem of_snoc (split : Split fits (l ++ [a]) groups) :
    ∃ front g, groups = front ++ [g ++ [a]] ∧ fits (g ++ [a]) ∧ l = front.flatten ++ g ∧ Split fits front.flatten front := by
  have some := split.ne_nil (by simp)
  obtain ⟨front, last, rfl⟩ : ∃ front last, groups = front ++ [last] :=
    ⟨groups.dropLast, groups.getLast some, (List.dropLast_append_getLast some).symm⟩
  have whole := split.flatten
  rw [List.flatten_append, List.flatten_singleton] at whole
  have ends := split.nonempty last (by simp)
  obtain ⟨g, b, rfl⟩ : ∃ g b, last = g ++ [b] :=
    ⟨last.dropLast, last.getLast ends, (List.dropLast_append_getLast ends).symm⟩
  rw [← List.append_assoc] at whole
  obtain ⟨same, last⟩ := List.append_inj' whole rfl
  obtain rfl := List.singleton_inj.mp last
  refine ⟨front, g, rfl, split.fit _ (by simp), same.symm, rfl, ?_, ?_⟩
  · exact fun h member => split.nonempty h (List.mem_append_left _ member)
  · exact fun h member => split.fit h (List.mem_append_left _ member)

/-- Without its last element a list needs no more groups. -/
theorem drop_last (shorter : ∀ g h : List α, g <+: h → fits h → fits g) (split : Split fits (l ++ [a]) groups) :
    ∃ groups', Split fits l groups' ∧ groups'.length ≤ groups.length := by
  obtain ⟨front, g, rfl, fit, same, rest⟩ := split.of_snoc
  rw [List.length_append, List.length_singleton]
  by_cases empty : g = []
  · rw [empty, List.append_nil] at same
    exact ⟨front, same ▸ rest, Nat.le_succ _⟩
  · refine ⟨front ++ [g], same ▸ rest.snoc empty (shorter g _ (List.prefix_append ..) fit), ?_⟩
    rw [List.length_append, List.length_singleton]

end Split

namespace Pack

variable [DecidablePred fits]

/-- The open group starts a new one in every split: a part of it that is not empty cannot be
covered by as many groups as are closed. -/
structure Ahead (fits : List α → Prop) (p : Pack α) : Prop where
  split : Split fits p.closed.flatten p.closed
  fit : p.current ≠ [] → fits p.current
  fresh : p.current = [] → p.closed = []
  ahead : ∀ c, c ≠ [] → c <+: p.current → ∀ groups, Split fits (p.closed.flatten ++ c) groups → p.closed.length < groups.length

theorem ahead_empty (fits : List α → Prop) : Ahead fits ({} : Pack α) where
  split := ⟨rfl, by simp, by simp⟩
  fit none := absurd rfl none
  fresh _ := rfl
  ahead := by
    rintro c some short groups -
    exact absurd (List.prefix_nil.mp short) some

variable (shorter : ∀ g h : List α, g <:+: h → fits h → fits g) (single : ∀ a : α, fits [a])
include shorter single

theorem Ahead.push {p : Pack α} (ahead : Ahead fits p) (a : α) : Ahead fits (p.push fits a) := by
  rw [Pack.push]
  split
  · rename_i fit
    refine ⟨ahead.split, fun _ => fit, fun none => by simp at none, fun c some short groups split => ?_⟩
    rcases List.prefix_concat_iff.mp short with rfl | short
    · by_cases first : p.current = []
      · rw [ahead.fresh first]
        exact List.length_pos_of_ne_nil (split.ne_nil (by simp))
      · rw [← List.append_assoc] at split
        obtain ⟨fewer, split, le⟩ := split.drop_last fun g h short => shorter g h short.isInfix
        exact (ahead.ahead _ first List.prefix_rfl fewer split).trans_le le
    · exact ahead.ahead c some short groups split
  · rename_i full
    have some : p.current ≠ [] := by
      intro none
      rw [none] at full
      exact full (single a)
    refine ⟨?_, fun _ => single a, fun none => by simp at none, fun c other short groups split => ?_⟩
    · rw [List.flatten_append, List.flatten_singleton]
      exact ahead.split.snoc some (ahead.fit some)
    · obtain rfl : c = [a] := by
        rcases List.prefix_concat_iff.mp (show c <+: [] ++ [a] from short) with same | nil
        · exact same
        · exact absurd (List.prefix_nil.mp nil) other
      obtain ⟨front, g, rfl, fit, same, rest⟩ := split.of_snoc
      rw [List.flatten_append, List.flatten_singleton] at same
      -- the last group cannot hold all of the group that was full
      obtain ⟨c, keeps, tail⟩ : ∃ c, c ≠ [] ∧ p.current = c ++ g := by
        rcases List.append_eq_append_iff.mp same with ⟨c, front', here⟩ | ⟨c, there, here⟩
        · by_cases empty : c = []
          · rw [empty, List.nil_append] at here
            exact absurd (here ▸ fit) full
          · exact ⟨c, empty, here⟩
        · refine absurd (shorter (p.current ++ [a]) (g ++ [a]) ?_ fit) full
          rw [here, List.append_assoc]
          exact (List.suffix_append c _).isInfix
      rw [tail, ← List.append_assoc] at same
      have cut := List.append_cancel_right same
      rw [← cut] at rest
      have enough := ahead.ahead c keeps (tail ▸ List.prefix_append ..) front rest
      rw [List.length_append, List.length_append, List.length_singleton, List.length_singleton]
      exact Nat.add_lt_add_right enough 1

theorem Ahead.foldl {p : Pack α} (ahead : Ahead fits p) (l : List α) : Ahead fits (l.foldl (Pack.push fits) p) := by
  induction l generalizing p with
  | nil => exact ahead
  | cons a l ih => exact ih (ahead.push shorter single a)

omit shorter single in
theorem push_all (p : Pack α) (a : α) : (p.push fits a).closed.flatten ++ (p.push fits a).current =
    p.closed.flatten ++ p.current ++ [a] := by
  rw [Pack.push]
  split <;> simp

omit shorter single in
theorem foldl_all (p : Pack α) (l : List α) : (l.foldl (Pack.push fits) p).closed.flatten ++ (l.foldl (Pack.push fits) p).current =
    p.closed.flatten ++ p.current ++ l := by
  induction l generalizing p with
  | nil => exact (List.append_nil _).symm
  | cons a l ih =>
    rw [List.foldl_cons, ih, push_all, List.append_assoc, List.singleton_append]

/-- The greedy groups are a split, and no split has fewer groups. -/
theorem fewest (l : List α) : Split fits l (l.foldl (Pack.push fits) {}).groups ∧
    ∀ groups, Split fits l groups → (l.foldl (Pack.push fits) {}).groups.length ≤ groups.length := by
  have ahead := (ahead_empty fits).foldl shorter single l
  have all : (l.foldl (Pack.push fits) {}).closed.flatten ++ (l.foldl (Pack.push fits) {}).current = [] ++ [] ++ l :=
    foldl_all {} l
  generalize l.foldl (Pack.push fits) {} = p at ahead all ⊢
  rw [List.nil_append, List.nil_append] at all
  rw [groups]
  split
  · rename_i none
    rw [none, List.append_nil] at all
    refine ⟨all ▸ ahead.split, fun groups _ => ?_⟩
    rw [ahead.fresh none]
    exact Nat.zero_le _
  · rename_i some
    refine ⟨all ▸ ahead.split.snoc some (ahead.fit some), fun groups split => ?_⟩
    rw [List.length_append, List.length_singleton]
    exact ahead.ahead p.current some List.prefix_rfl groups (all ▸ split)

end Pack

end Greedy
