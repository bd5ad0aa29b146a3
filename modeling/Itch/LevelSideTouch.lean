import Itch.Lib.KeyedSplit
import Itch.LevelSideSpec

namespace Itch

open Arrays KeyedSplit

namespace Level

/-- A level that an order of `shares` joins. -/
def join (key shares : UInt32) : Option Level → Level
  | none => ⟨key, shares.toUInt64, 1⟩
  | some l => ⟨key, l.qty + shares.toUInt64, l.orders + 1⟩

/-- A level that loses `shares`, and an order if `gone`. -/
def leave (key shares : UInt32) (gone : Bool) (l : Level) : Option Level :=
  if l.orders - (if gone then 1 else 0) = 0 then none
  else some ⟨key, l.qty - shares.toUInt64, l.orders - if gone then 1 else 0⟩

theorem leave_key {key shares : UInt32} {gone : Bool} {l l' : Level} (left : leave key shares gone l = some l') :
    l'.key = key := by
  unfold leave at left
  generalize l.orders - (if gone then 1 else 0) = orders at left
  split at left
  · cases left
  · obtain rfl := Option.some.inj left
    rfl

end Level

namespace LevelSide

variable {s : LevelSide}

/-- The level at `key`, if there is one. -/
def lookup (s : LevelSide) (key : UInt32) : Option Level := KeyedSplit.lookup Level.key key s.levels

/-- `t` has the levels of `s` but for the one at `key`, which went from `before` to
`after`. `top` says that no level is better. -/
structure Touch (s t : LevelSide) (key : UInt32) (before after : Option Level) (low high : List Level) : Prop where
  old : s.levels = low ++ before.toList ++ high
  new : t.levels = low ++ after.toList ++ high
  below : ∀ l ∈ low, l.key < key
  above : ∀ l ∈ high, key < l.key
  oldKey : ∀ l, before = some l → l.key = key
  newKey : ∀ l, after = some l → l.key = key

namespace Touch

variable {t : LevelSide} {key : UInt32} {before after : Option Level} {low high : List Level}

theorem lookup_new (touch : s.Touch t key before after low high) : t.lookup key = after := by
  rw [LevelSide.lookup, touch.new]
  exact lookup_middle (fun l member => UInt32.ne_of_lt (touch.below l member))
    (fun l member => (UInt32.ne_of_lt (touch.above l member)).symm) touch.newKey

theorem lookup_other (touch : s.Touch t key before after low high) {other : UInt32} (different : other ≠ key) :
    t.lookup other = s.lookup other := by
  rw [LevelSide.lookup, LevelSide.lookup, touch.old, touch.new]
  exact KeyedSplit.lookup_other touch.oldKey touch.newKey different

/-- The best level is untouched unless none is better than the touched one. -/
theorem getLast?_eq (touch : s.Touch t key before after low high) (some : high ≠ []) :
    t.levels.getLast? = s.levels.getLast? := by
  rw [touch.old, touch.new, List.getLast?_append_of_ne_nil _ some, List.getLast?_append_of_ne_nil _ some]

end Touch

/-- Splitting the levels where `find` points. -/
theorem find_split (wf : s.WF) (search : LevelSearch) (key : UInt32) :
    (∃ i < s.size, s.find search key = i ∧ keyAt s.keys i = key ∧ s.lookup key = some (s.level i) ∧
      s.levels = segment s.level 0 i ++ [s.level i] ++ segment s.level (i + 1) (s.size - i - 1)) ∨
    ((s.find search key < s.size → keyAt s.keys (s.find search key) ≠ key) ∧ s.lookup key = none) := by
  have bound := wf.find_spec search key
  have low := low_of_bound bound
  by_cases hit : s.find search key < s.size ∧ keyAt s.keys (s.find search key) = key
  · obtain ⟨inside, same⟩ := hit
    have high := above_hit wf inside same
    have split : s.levels = segment s.level 0 (s.find search key) ++ [s.level (s.find search key)] ++
        segment s.level (s.find search key + 1) (s.size - s.find search key - 1) := by
      rw [levels, segment_split_at inside, List.append_assoc]
      rfl
    refine .inl ⟨_, inside, rfl, same, ?_, split⟩
    rw [lookup, split]
    refine @lookup_middle _ _ _ _ key _ _ (some (s.level (s.find search key))) ?_ ?_ ?_
    · exact fun l member => UInt32.ne_of_lt (low l member)
    · exact fun l member => (UInt32.ne_of_lt (high l member)).symm
    · rintro l ⟨⟩
      exact same
  · have miss : s.find search key < s.size → keyAt s.keys (s.find search key) ≠ key := fun inside same => hit ⟨inside, same⟩
    have high := high_of_bound bound wf miss
    refine .inr ⟨miss, ?_⟩
    rw [lookup, levels, segment_split bound.le]
    refine lookup_of_absent _ fun l member => ?_
    rcases List.mem_append.mp member with below | above
    · exact UInt32.ne_of_lt (low l below)
    · exact (UInt32.ne_of_lt (high l above)).symm

/-- `add` makes its order join the level at its key. The result is right about the top. -/
theorem add_spec (search : LevelSearch) (wf : s.WF) (key shares : UInt32)
    (room : s.size < 2 ^ 31 ∨ s.lookup key ≠ none) :
    (s.add search key shares).1.WF ∧ ∃ low high,
      s.Touch (s.add search key shares).1 key (s.lookup key) (some (Level.join key shares (s.lookup key))) low high ∧
      (s.add search key shares).2 = high.isEmpty := by
  have bound := wf.find_spec search key
  have low := low_of_bound bound
  rcases find_split wf search key with ⟨i, inside, rfl, hit, found, split⟩ | ⟨miss, absent⟩
  · obtain ⟨kept, levels, top⟩ := add_hit search wf shares inside hit
    refine ⟨kept, _, _, ⟨?_, ?_, low, above_hit wf inside hit, ?_, ?_⟩, top.trans (isEmpty_segment ..).symm⟩
    · rw [found]
      exact split
    · rw [levels, found, List.append_assoc]
      rfl
    · rw [found]
      rintro l ⟨⟩
      exact hit
    · rw [found]
      rintro l ⟨⟩
      rfl
  · have small := room.resolve_right (not_not.mpr absent)
    obtain ⟨kept, levels, top⟩ := add_miss search wf shares small miss
    refine ⟨kept, _, _, ⟨?_, ?_, low, high_of_bound bound wf miss, ?_, ?_⟩, top.trans (isEmpty_segment ..).symm⟩
    · rw [absent, LevelSide.levels, segment_split bound.le]
      simp
    · rw [levels, absent, List.append_assoc]
      rfl
    · rw [absent]
      intro l found
      cases found
    · rw [absent]
      rintro l ⟨⟩
      rfl

/-- `reduce` takes from the level at its key if there is one. -/
theorem reduce_spec (search : LevelSearch) (wf : s.WF) (key shares : UInt32) (gone : Bool) :
    (s.lookup key = none ∧ s.reduce search key shares gone = (s, .missingLevel)) ∨
    ∃ l low high, s.lookup key = some l ∧ (s.reduce search key shares gone).1.WF ∧
      s.Touch (s.reduce search key shares gone).1 key (some l) (Level.leave key shares gone l) low high ∧
      (s.reduce search key shares gone).2 = if high.isEmpty then .topChanged else .ok := by
  have bound := wf.find_spec search key
  have low := low_of_bound bound
  rcases find_split wf search key with ⟨i, inside, rfl, hit, found, split⟩ | ⟨miss, absent⟩
  · obtain ⟨kept, levels, top⟩ := reduce_hit search wf shares gone inside hit
    refine .inr ⟨_, _, _, found, kept, ⟨split, ?_, low, above_hit wf inside hit, ?_, ?_⟩, ?_⟩
    · rw [levels]
      congr 2
      by_cases emptied : s.ordersAt (s.find search key) - (if gone then 1 else 0) = 0
      · have none : Level.leave key shares gone (s.level (s.find search key)) = none := if_pos emptied
        rw [if_pos emptied, none]
        rfl
      · have some : Level.leave key shares gone (s.level (s.find search key)) = some _ := if_neg emptied
        rw [if_neg emptied, some]
        rfl
    · rintro l ⟨⟩
      exact hit
    · exact fun l after => Level.leave_key after
    · rw [top, isEmpty_segment]
      simp only [decide_eq_true_eq]
  · exact .inl ⟨absent, reduce_missing search shares gone miss⟩

end LevelSide

end Itch
