import Mathlib.Order.Cover
import Mathlib.Order.Monotone.Basic

/-- A linear order cut into consecutive tiles: the tile of a point, and the least and
the greatest point of a tile. -/
structure Tiling (α ι : Type) [LinearOrder α] [LinearOrder ι] where
  index : α → ι
  lower : ι → α
  upper : ι → α
  mono : Monotone index
  lower_le : ∀ v, lower (index v) ≤ v
  le_upper : ∀ v, v ≤ upper (index v)
  index_lower : ∀ i, index (lower i) = i
  index_upper : ∀ i, index (upper i) = i

namespace Tiling

variable {α ι : Type} [LinearOrder α] [LinearOrder ι] (t : Tiling α ι) {i j : ι}

/-- Next to the last point of a tile stands the first point of the next one. -/
theorem upper_covBy_lower (next : i ⋖ j) : t.upper i ⋖ t.lower j := by
  constructor
  · by_contra reversed
    have backwards := t.mono (le_of_not_gt reversed)
    rw [t.index_lower, t.index_upper] at backwards
    exact absurd next.lt (not_lt_of_ge backwards)
  · intro v above below
    have first : i ≤ t.index v := by
      have ordered := t.mono above.le
      rwa [t.index_upper] at ordered
    have last : t.index v ≤ j := by
      have ordered := t.mono below.le
      rwa [t.index_lower] at ordered
    rcases first.lt_or_eq with after | same
    · rcases last.lt_or_eq with before | same
      · exact next.2 after before
      · exact absurd below (not_lt_of_ge (same ▸ t.lower_le v))
    · exact absurd above (not_lt_of_ge (same ▸ t.le_upper v))

theorem upper_isTop (last : IsTop i) : IsTop (t.upper i) := by
  intro v
  rcases (last (t.index v)).lt_or_eq with before | same
  · by_contra beyond
    have ordered := t.mono (le_of_not_ge beyond)
    rw [t.index_upper] at ordered
    exact absurd before (not_lt_of_ge ordered)
  · exact same ▸ t.le_upper v

end Tiling
