import Itch.LevelSideLevels

namespace Itch

open Arrays

namespace LevelSide

variable {s : LevelSide}

theorem getD_regrow {α : Type} [Inhabited α] (a : List α) {size cap i : Nat} (copied : i < size) (inside : i < cap) :
    (regrow a size cap).getD i default = a.getD i default := by
  rw [regrow, getD_map_range _ _ inside, if_pos copied]

/-- Below 2 ^ 31 elements doubling the arrays makes room and keeps the levels. -/
theorem grow_spec (wf : s.WF) (full : s.size = s.cap) (small : s.size < 2 ^ 31) :
    s.grow.WF ∧ s.grow.size = s.size ∧ s.size < s.grow.cap ∧ ∀ i < s.size, s.grow.level i = s.level i := by
  obtain ⟨room, capacity⟩ : s.size < s.grow.cap ∧ ∃ e ≤ 27, s.grow.cap = 16 * 2 ^ e := by
    change s.size < (if s.cap = 0 then 16 else s.cap * 2 % 2 ^ 32) ∧
      ∃ e ≤ 27, (if s.cap = 0 then 16 else s.cap * 2 % 2 ^ 32) = 16 * 2 ^ e
    split
    · exact ⟨by omega, 0, Nat.zero_le _, rfl⟩
    · rename_i some
      obtain ⟨e, bound, shape⟩ := wf.capacity.resolve_left some
      have below : e < 27 := by
        by_contra large
        obtain rfl : e = 27 := by omega
        omega
      have next : 2 ^ (e + 1) = 2 * 2 ^ e := by rw [Nat.pow_succ, Nat.mul_comm]
      exact ⟨by omega, e + 1, by omega, by omega⟩
  have keys : ∀ i < s.size, keyAt s.grow.keys i = keyAt s.keys i := fun i inside =>
    getD_regrow s.keys inside (Nat.lt_trans inside room)
  refine ⟨⟨Nat.le_of_lt room, by simp [grow, regrow], by simp [grow, regrow], by simp [grow, regrow], .inr capacity, ?_⟩,
    rfl, room, ?_⟩
  · intro i j before inside
    rw [keys i (Nat.lt_trans before inside), keys j inside]
    exact wf.ascending i j before inside
  · intro i inside
    have within := Nat.lt_trans inside room
    have qty : s.grow.qtyAt i = s.qtyAt i := getD_regrow s.qty inside within
    have orders : s.grow.ordersAt i = s.ordersAt i := getD_regrow s.orders inside within
    rw [level, level, keys i inside, qty, orders]

theorem WF.find_spec (wf : s.WF) (search : LevelSearch) (key : UInt32) :
    IsLowerBound s.keys s.size key (s.find search key) := by
  rw [find]
  split
  · obtain ⟨r, bound⟩ := wf.sorted.exists_lowerBound key
    rwa [search.finds _ _ _ r bound]
  · exact ⟨Nat.zero_le _, fun i => by omega, fun i => by omega⟩

section Split

variable {key : UInt32} {pos : Nat} (bound : IsLowerBound s.keys s.size key pos)
include bound

theorem low_of_bound : ∀ l ∈ segment s.level 0 pos, l.key < key := by
  intro l member
  obtain ⟨i, -, before, rfl⟩ := mem_segment.mp member
  exact bound.below i (by omega)

/-- Past a position that does not hold `key` all keys are above it. -/
theorem high_of_bound (wf : s.WF) (miss : pos < s.size → keyAt s.keys pos ≠ key) :
    ∀ l ∈ segment s.level pos (s.size - pos), key < l.key := by
  intro l member
  obtain ⟨i, after, before, rfl⟩ := mem_segment.mp member
  have inside : pos < s.size := by omega
  have reached : keyAt s.keys pos ≤ keyAt s.keys i := wf.sorted pos i after (by omega)
  have notBelow := bound.notBelow pos (Nat.le_refl _) inside
  have other := miss inside
  change key < keyAt s.keys i
  rw [UInt32.lt_iff_toNat_lt] at notBelow ⊢
  rw [UInt32.le_iff_toNat_le] at reached
  rw [Ne, ← UInt32.toNat_inj] at other
  omega

end Split

theorem above_hit {key : UInt32} {pos : Nat} (wf : s.WF) (inside : pos < s.size) (hit : keyAt s.keys pos = key) :
    ∀ l ∈ segment s.level (pos + 1) (s.size - pos - 1), key < l.key := by
  intro l member
  obtain ⟨i, after, before, rfl⟩ := mem_segment.mp member
  rw [← hit]
  exact wf.ascending pos i (by omega) (by omega)

theorem isEmpty_segment (f : Nat → Level) (a n : Nat) : (segment f a n).isEmpty = decide (n = 0) := by
  cases n with
  | zero => rfl
  | succ n => rw [segment_cons]; rfl

/-- `add` where the key is found. -/
theorem add_hit (search : LevelSearch) (wf : s.WF) {key : UInt32} (shares : UInt32) (inside : s.find search key < s.size)
    (hit : keyAt s.keys (s.find search key) = key) :
    (s.add search key shares).1.WF ∧ (s.add search key shares).1.levels =
      segment s.level 0 (s.find search key) ++
        ⟨key, s.qtyAt (s.find search key) + shares.toUInt64, s.ordersAt (s.find search key) + 1⟩ ::
        segment s.level (s.find search key + 1) (s.size - s.find search key - 1) ∧
      (s.add search key shares).2 = decide (s.size - s.find search key - 1 = 0) := by
  have added : s.add search key shares = ({ s with
      qty := s.qty.set (s.find search key) (s.qtyAt (s.find search key) + shares.toUInt64)
      orders := s.orders.set (s.find search key) (s.ordersAt (s.find search key) + 1) },
      decide (s.find search key = s.size - 1)) := if_pos ⟨inside, hit⟩
  rw [added]
  generalize s.find search key = pos at *
  have fits := wf.fits
  have qtyRoom : pos < s.qty.length := by rw [wf.qty]; omega
  have ordersRoom : pos < s.orders.length := by rw [wf.orders]; omega
  refine ⟨⟨wf.fits, wf.keys, ?_, ?_, wf.capacity, wf.ascending⟩, ?_, ?_⟩
  · exact List.length_set.trans wf.qty
  · exact List.length_set.trans wf.orders
  · rw [levels, segment_split_at inside]
    have others : ∀ i, i ≠ pos → LevelSide.level { s with
        qty := s.qty.set pos (s.qtyAt pos + shares.toUInt64), orders := s.orders.set pos (s.ordersAt pos + 1) } i = s.level i := by
      intro i other
      simp only [level, qtyAt, ordersAt, getD_set qtyRoom, getD_set ordersRoom, if_neg other]
    congr 1
    · exact segment_congr fun i before => others (0 + i) (by omega)
    · congr 1
      · simp only [level, qtyAt, ordersAt, getD_set qtyRoom, getD_set ordersRoom, if_true, hit]
      · exact segment_congr fun i _ => others (pos + 1 + i) (by omega)
  · exact decide_eq_decide.mpr (by omega)

/-- The arrays with a gap opened at `pos` and filled with a new level. -/
def openedAt (s : LevelSide) (pos : Nat) (l : Level) : LevelSide where
  keys := opened s.keys pos s.size l.key
  qty := opened s.qty pos s.size l.qty
  orders := opened s.orders pos s.size l.orders
  size := s.size + 1
  cap := s.cap

section Open

variable {pos : Nat} {l : Level} (wf : s.WF) (room : s.size < s.cap) (le : pos ≤ s.size)
include wf room le

theorem level_openedAt {i : Nat} (inside : i ≤ s.size) :
    (s.openedAt pos l).level i = if i = pos then l else s.level (if pos < i then i - 1 else i) := by
  have keysLength := wf.keys
  have qtyLength := wf.qty
  have ordersLength := wf.orders
  have keyHere := getD_opened s.keys l.key (by omega) le inside
  have qtyHere := getD_opened s.qty l.qty (by omega) le inside
  have ordersHere := getD_opened s.orders l.orders (by omega) le inside
  have entry := congr (congr (congrArg Level.mk keyHere) qtyHere) ordersHere
  by_cases here : i = pos
  · rw [if_pos here, if_pos here, if_pos here] at entry
    rw [if_pos here]
    exact entry
  · rw [if_neg here, if_neg here, if_neg here] at entry
    rw [if_neg here]
    exact entry

theorem levels_openedAt :
    (s.openedAt pos l).levels = segment s.level 0 pos ++ l :: segment s.level pos (s.size - pos) := by
  have below : ∀ i < pos, (s.openedAt pos l).level i = s.level i := fun i before => by
    rw [level_openedAt wf room le (by omega), if_neg (by omega), if_neg (by omega)]
  have above : ∀ i, pos ≤ i → i < s.size → (s.openedAt pos l).level (i + 1) = s.level i := fun i after inside => by
    rw [level_openedAt wf room le (by omega), if_neg (by omega), if_pos (by omega), Nat.add_sub_cancel]
  have here : (s.openedAt pos l).level pos = l := by
    rw [level_openedAt wf room le le, if_pos rfl]
  change segment _ 0 (s.size + 1) = _
  rw [@segment_split_at _ _ _ pos (Nat.lt_succ_of_le le), here]
  congr 1
  · exact segment_congr fun i before => below (0 + i) (by omega)
  · congr 1
    have count : s.size + 1 - pos - 1 = s.size - pos := by omega
    rw [count]
    refine segment_congr fun i before => ?_
    have next : pos + 1 + i = pos + i + 1 := by omega
    rw [next]
    exact above (pos + i) (by omega) (by omega)

theorem openedAt_wf (low : ∀ i < pos, keyAt s.keys i < l.key) (high : ∀ i, pos ≤ i → i < s.size → l.key < keyAt s.keys i) :
    (s.openedAt pos l).WF := by
  refine ⟨room, (length_opened ..).trans wf.keys, (length_opened ..).trans wf.qty, (length_opened ..).trans wf.orders,
    wf.capacity, ?_⟩
  intro i j before inside
  have inside : j ≤ s.size := Nat.le_of_lt_succ inside
  have left := congrArg Level.key (level_openedAt wf room le (l := l) (by omega : i ≤ s.size))
  have right := congrArg Level.key (level_openedAt wf room le (l := l) inside)
  change keyAt _ i = _ at left
  change keyAt _ j = _ at right
  rw [left, right]
  rcases Nat.lt_trichotomy i pos with lower | rfl | upper
  · rw [if_neg (by omega), if_neg (by omega)]
    by_cases last : j = pos
    · rw [if_pos last]
      exact low i lower
    · rw [if_neg last]
      exact wf.ascending i _ (by split <;> omega) (by split <;> omega)
  · rw [if_pos rfl, if_neg (by omega), if_pos before]
    exact high (j - 1) (by omega) (by omega)
  · rw [if_neg (by omega), if_pos upper, if_neg (by omega), if_pos (by omega)]
    exact wf.ascending (i - 1) (j - 1) (by omega) (by omega)

end Open

/-- The arrays after `grow`, if it was needed. -/
theorem grown_spec (wf : s.WF) (small : s.size < 2 ^ 31) : ∃ t, (if s.size = s.cap then s.grow else s) = t ∧ t.WF ∧
    t.size = s.size ∧ s.size < t.cap ∧ ∀ i < s.size, t.level i = s.level i := by
  split
  · rename_i full
    exact ⟨s.grow, rfl, grow_spec wf full small⟩
  · rename_i other
    exact ⟨s, rfl, wf, rfl, lt_of_le_of_ne wf.fits other, fun _ _ => rfl⟩

/-- `add` where the key is new and there is room for it. -/
theorem add_miss (search : LevelSearch) (wf : s.WF) {key : UInt32} (shares : UInt32) (small : s.size < 2 ^ 31)
    (miss : s.find search key < s.size → keyAt s.keys (s.find search key) ≠ key) :
    (s.add search key shares).1.WF ∧ (s.add search key shares).1.levels =
      segment s.level 0 (s.find search key) ++ ⟨key, shares.toUInt64, 1⟩ ::
        segment s.level (s.find search key) (s.size - s.find search key) ∧
      (s.add search key shares).2 = decide (s.size - s.find search key = 0) := by
  have bound := wf.find_spec search key
  have low := low_of_bound bound
  have high := high_of_bound bound wf miss
  have notHit : ¬ (s.find search key < s.size ∧ keyAt s.keys (s.find search key) = key) := fun hit => miss hit.1 hit.2
  have le := bound.le
  obtain ⟨t, grown, wf', size, room, same⟩ := grown_spec wf small
  have added : s.add search key shares =
      (t.openedAt (s.find search key) ⟨key, shares.toUInt64, 1⟩, decide (s.size - s.find search key = 0)) := by
    have unwrapped : (s.size + 1) % 2 ^ 32 = s.size + 1 := Nat.mod_eq_of_lt (by omega)
    rw [add, if_neg notHit, grown, unwrapped, openedAt, size]
    unfold opened
    dsimp only
    split <;> rfl
  rw [added]
  generalize s.find search key = pos at *
  have front : segment t.level 0 pos = segment s.level 0 pos := segment_congr fun i before => same _ (by omega)
  have back : segment t.level pos (t.size - pos) = segment s.level pos (s.size - pos) := by
    rw [size]
    exact segment_congr fun i before => same _ (by omega)
  rw [← size] at le room
  refine ⟨openedAt_wf wf' room le ?_ ?_, ?_, rfl⟩
  · intro i before
    exact low (t.level i) (front ▸ mem_segment.mpr ⟨i, Nat.zero_le _, by omega, rfl⟩)
  · intro i after inside
    exact high (t.level i) (back ▸ mem_segment.mpr ⟨i, after, by omega, rfl⟩)
  · rw [levels_openedAt wf' room le, front, back]

theorem reduce_missing (search : LevelSearch) {key : UInt32} (shares : UInt32) (gone : Bool)
    (miss : s.find search key < s.size → keyAt s.keys (s.find search key) ≠ key) :
    s.reduce search key shares gone = (s, .missingLevel) := by
  rw [reduce]
  dsimp only
  split
  · rfl
  · rename_i some
    rw [find, if_pos some] at miss
    refine if_pos ?_
    by_cases inside : search.lowerBound s.keys s.size key < s.size
    · exact .inr (miss inside)
    · exact .inl (Nat.le_of_not_lt inside)

/-- A level's numbers rewritten in place. -/
theorem rewrite_spec (wf : s.WF) {pos : Nat} (inside : pos < s.size) (qty : UInt64) (orders : UInt32) :
    ({ s with qty := s.qty.set pos qty, orders := s.orders.set pos orders }).WF ∧
      ∀ i, LevelSide.level { s with qty := s.qty.set pos qty, orders := s.orders.set pos orders } i =
        if i = pos then ⟨keyAt s.keys pos, qty, orders⟩ else s.level i := by
  have fits := wf.fits
  have qtyRoom : pos < s.qty.length := by rw [wf.qty]; omega
  have ordersRoom : pos < s.orders.length := by rw [wf.orders]; omega
  refine ⟨⟨wf.fits, wf.keys, List.length_set.trans wf.qty, List.length_set.trans wf.orders, wf.capacity, wf.ascending⟩, ?_⟩
  intro i
  by_cases here : i = pos
  · simp only [level, qtyAt, ordersAt, getD_set qtyRoom, getD_set ordersRoom, here, if_true]
  · simp only [level, qtyAt, ordersAt, getD_set qtyRoom, getD_set ordersRoom, if_neg here]

/-- One of the levels taken out of the arrays. -/
theorem close_spec (wf : s.WF) {pos : Nat} (inside : pos < s.size) :
    (LevelSide.mk (closed s.keys pos s.size) (closed s.qty pos s.size) (closed s.orders pos s.size) (s.size - 1) s.cap).WF ∧
      (LevelSide.mk (closed s.keys pos s.size) (closed s.qty pos s.size) (closed s.orders pos s.size) (s.size - 1)
        s.cap).levels = segment s.level 0 pos ++ segment s.level (pos + 1) (s.size - pos - 1) := by
  have fits := wf.fits
  have keysLength := wf.keys
  have qtyLength := wf.qty
  have ordersLength := wf.orders
  have keys : ∀ i < s.size - 1, keyAt (closed s.keys pos s.size) i = keyAt s.keys (if pos ≤ i then i + 1 else i) :=
    fun i lt => getD_closed s.keys (by omega) inside lt
  have level' : ∀ i < s.size - 1, LevelSide.level (LevelSide.mk (closed s.keys pos s.size) (closed s.qty pos s.size)
      (closed s.orders pos s.size) (s.size - 1) s.cap) i = s.level (if pos ≤ i then i + 1 else i) := by
    intro i lt
    have qtyHere := getD_closed s.qty (by omega) inside lt
    have ordersHere := getD_closed s.orders (by omega) inside lt
    have entry := congr (congr (congrArg Level.mk (keys i lt)) qtyHere) ordersHere
    exact entry
  refine ⟨⟨Nat.le_trans (Nat.sub_le ..) wf.fits, ?_, ?_, ?_, wf.capacity, ?_⟩, ?_⟩
  · exact (length_closed ..).trans wf.keys
  · exact (length_closed ..).trans wf.qty
  · exact (length_closed ..).trans wf.orders
  · intro i j before lt
    have lt : j < s.size - 1 := lt
    change keyAt (closed s.keys pos s.size) i < keyAt (closed s.keys pos s.size) j
    rw [keys i (by omega), keys j lt]
    exact wf.ascending _ _ (by split <;> split <;> omega) (by split <;> omega)
  · change segment _ 0 (s.size - 1) = _
    rw [@segment_split _ _ _ pos (by omega)]
    have count : s.size - 1 - pos = s.size - pos - 1 := by omega
    rw [count]
    congr 1
    · refine segment_congr fun i before => ?_
      rw [level' (0 + i) (by omega), if_neg (by omega)]
    · refine segment_congr fun i before => ?_
      rw [level' (pos + i) (by omega), if_pos (by omega)]
      congr 1
      omega

/-- The last steps of `reduce`: a level whose last order went is erased. -/
theorem drained_spec (wf : s.WF) {pos : Nat} (inside : pos < s.size) :
    ∃ t, (if s.ordersAt pos = 0 then
        let tail := s.size - pos - 1
        let s' := if tail ≠ 0 then
            { s with keys := shiftDown s.keys pos tail, qty := shiftDown s.qty pos tail,
                     orders := shiftDown s.orders pos tail }
          else s
        { s' with size := s.size - 1 }
      else s) = t ∧ t.WF ∧ t.levels = segment s.level 0 pos ++ (if s.ordersAt pos = 0 then [] else [s.level pos]) ++
        segment s.level (pos + 1) (s.size - pos - 1) := by
  split
  · obtain ⟨kept, levels⟩ := close_spec wf inside
    refine ⟨_, ?_, kept, levels.trans (by rw [List.append_nil])⟩
    unfold closed
    dsimp only
    split <;> rfl
  · refine ⟨s, rfl, wf, ?_⟩
    rw [LevelSide.levels, segment_split_at inside, List.append_assoc]
    rfl

theorem reduce_hit (search : LevelSearch) (wf : s.WF) {key : UInt32} (shares : UInt32) (gone : Bool)
    (inside : s.find search key < s.size) (hit : keyAt s.keys (s.find search key) = key) :
    (s.reduce search key shares gone).1.WF ∧ (s.reduce search key shares gone).1.levels =
      segment s.level 0 (s.find search key) ++
        (if s.ordersAt (s.find search key) - (if gone then 1 else 0) = 0 then [] else
          [⟨key, s.qtyAt (s.find search key) - shares.toUInt64, s.ordersAt (s.find search key) - if gone then 1 else 0⟩]) ++
        segment s.level (s.find search key + 1) (s.size - s.find search key - 1) ∧
      (s.reduce search key shares gone).2 = if s.size - s.find search key - 1 = 0 then .topChanged else .ok := by
  have some : s.size ≠ 0 := by omega
  have position : s.find search key = search.lowerBound s.keys s.size key := if_pos some
  have present : ¬ (s.size ≤ s.find search key ∨ keyAt s.keys (s.find search key) ≠ key) := by
    rintro (beyond | other)
    · omega
    · exact other hit
  obtain ⟨wf', level'⟩ := rewrite_spec wf inside (s.qtyAt (s.find search key) - shares.toUInt64)
    (s.ordersAt (s.find search key) - if gone then 1 else 0)
  have orders' := congrArg Level.orders (level' (s.find search key))
  rw [if_pos rfl] at orders'
  have top : (if s.find search key = s.size - 1 then Reduce.topChanged else Reduce.ok) =
      if s.size - s.find search key - 1 = 0 then .topChanged else .ok := by
    split <;> split <;> first | rfl | omega
  rw [reduce]
  dsimp only
  rw [if_neg some, ← position, if_neg present, top]
  generalize s.find search key = pos at *
  obtain ⟨t, drained, kept, levels⟩ := drained_spec wf' inside
  rw [drained]
  refine ⟨kept, levels.trans ?_, rfl⟩
  change LevelSide.ordersAt _ pos = _ at orders'
  rw [orders', level' pos, if_pos rfl, hit]
  congr 1
  · congr 1
    exact segment_congr fun i before => (level' (0 + i)).trans (if_neg (by omega))
  · exact segment_congr fun i _ => (level' (pos + 1 + i)).trans (if_neg (by omega))

end LevelSide

end Itch
