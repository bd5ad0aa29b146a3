import Itch.BookBuilder
import Itch.EngineSearches
import Itch.LevelSearchChunks
import Itch.LevelSideTouch

namespace Itch

/-- Counts, for every level search, the keys at or above the searched one. -/
structure DepthProfiler (B : Build) where
  builder : BookBuilder B Unit
  hist : List Nat
  total : Nat

namespace DepthProfiler

variable {B : Build}

def kMax : Nat := 1024

def create (engine : BookEngine B) : DepthProfiler B where
  builder := { engine, sink := () }
  hist := List.replicate (kMax + 1) 0
  total := 0

/-- The first level from `d` on, counted from the top, that does not meet `p`. -/
def walk (s : LevelSide) (p : UInt32 → Bool) (d : Nat) : Nat :=
  if d < s.size ∧ p (s.keyAtLevel d) then walk s p (d + 1) else d
termination_by s.size - d

def keysAtOrAbove (s : LevelSide) (key : UInt32) : Nat := walk s (fun k => key ≤ k) 0

def levelOf (s : LevelSide) (key : UInt32) : Nat := walk s (fun k => key < k) 0

/-- What `measure` records. -/
def measure (e : BookEngine B) (locate : UInt16) (side : UInt8) (price : UInt32) : Nat :=
  keysAtOrAbove ((e.books locate).side side) (OrderBook.keyFor side price)

def measureOrder (e : BookEngine B) (ref : UInt64) : List Nat :=
  match e.orders.find ref with
  | none => []
  | some p => [measure e p.order.locate p.order.side p.order.price]

/-- What the search for a new level will meet once an order has left its old one. -/
def keysAfterRemoval (s : LevelSide) (removedKey newKey : UInt32) : Nat :=
  let oldLevelVanishes := s.ordersAtLevel (levelOf s removedKey) = 1
  let ge := keysAtOrAbove s newKey
  if oldLevelVanishes ∧ newKey ≤ removedKey then (ge + (2 ^ 32 - 1)) % 2 ^ 32 else ge

/-- The second value of a replace, recorded before the old order is removed. -/
def measureReplaced (e : BookEngine B) (o : Order) (price : UInt32) : Nat :=
  keysAfterRemoval ((e.books o.locate).side o.side) (OrderBook.keyFor o.side o.price) (OrderBook.keyFor o.side price)

/-- The values that `on` records for a message, in order. -/
def measured (e : BookEngine B) : BookMessage → List Nat
  | .addOrder m => [measure e m.locate m.side m.price]
  | .addOrderMpid m => [measure e m.locate m.side m.price]
  | .orderExecuted m => measureOrder e m.ref
  | .orderExecutedWithPrice m => measureOrder e m.ref
  | .orderCancel m => measureOrder e m.ref
  | .orderDelete m => measureOrder e m.ref
  | .orderReplace m =>
    match e.orders.find m.originalRef with
    | none => []
    | some p => [measure e p.order.locate p.order.side p.order.price, measureReplaced e p.order m.price]

def record (p : DepthProfiler B) (ge : Nat) : DepthProfiler B :=
  { p with hist := p.hist.modify (if ge < kMax then ge else kMax) (· + 1), total := p.total + 1 }

/-- Messages that the profiler has no `on` for are not decoded. -/
def on (p : DepthProfiler B) : Message → DepthProfiler B
  | .book m => { (measured p.builder.engine m).foldl record p with builder := p.builder.on (nullSink B) (.book m) }
  | .stockDirectory m => { p with builder := p.builder.on (nullSink B) (.stockDirectory m) }
  | .systemEvent _ => p
  | .other _ => p

section Walk

variable {s : LevelSide}

/-- Where the levels that meet `p` are the first `c`, the walk ends at the `c`-th. -/
theorem walk_eq {p : UInt32 → Bool} {c : Nat} (le : c ≤ s.size) (first : ∀ i < s.size, p (s.keyAtLevel i) ↔ i < c)
    {d : Nat} (before : d ≤ c) : walk s p d = c := by
  induction d using walk.induct s p with
  | case1 d ahead ih =>
    rw [walk, if_pos ahead]
    exact ih ((first d ahead.1).mp ahead.2)
  | case2 d done =>
    rw [walk, if_neg done]
    by_contra other
    have less : d < c := by omega
    exact done ⟨by omega, (first d (by omega)).mpr less⟩

/-- The profiler counts the keys at or above `key` in the buffer. -/
theorem keysAtOrAbove_eq (sorted : Ascending s.keys s.size) (key : UInt32) :
    keysAtOrAbove s key = countAtOrAbove s.keys s.size key := by
  obtain ⟨r, bound⟩ := sorted.exists_lowerBound key
  rw [bound.countAtOrAbove_eq]
  refine walk_eq (Nat.sub_le ..) ?_ (Nat.zero_le _)
  intro i inside
  rw [decide_eq_true_eq, ← UInt32.not_lt, LevelSide.keyAtLevel, bound.lt_iff (by omega)]
  omega

/-- A level that is there is found. -/
theorem levelOf_eq (wf : s.WF) {pos : Nat} (inside : pos < s.size) : levelOf s (keyAt s.keys pos) = s.size - 1 - pos := by
  refine walk_eq (by omega) ?_ (Nat.zero_le _)
  intro i before
  rw [decide_eq_true_eq, LevelSide.keyAtLevel]
  constructor
  · intro above
    by_contra far
    have le : s.size - 1 - i ≤ pos := by omega
    exact absurd above (UInt32.not_lt.mpr (wf.sorted _ _ le inside))
  · intro near
    exact wf.ascending pos (s.size - 1 - i) (by omega) (by omega)

theorem ordersAtLevel_levelOf (wf : s.WF) {l : Level} {key : UInt32} (found : s.lookup key = some l) :
    s.ordersAtLevel (levelOf s key) = l.orders := by
  have member : l ∈ s.levels := List.mem_of_find?_eq_some found
  obtain rfl : l.key = key := by simpa using List.find?_some found
  obtain ⟨pos, -, inside, rfl⟩ := Arrays.mem_segment.mp member
  have inside : pos < s.size := by omega
  have level : levelOf s (s.level pos).key = s.size - 1 - pos := levelOf_eq wf inside
  have back : s.size - 1 - (s.size - 1 - pos) = pos := by omega
  rw [level, LevelSide.ordersAtLevel, back]
  rfl

end Walk

section Record

variable (p : DepthProfiler B)

theorem on_engine (m : Message) : (p.on m).builder.engine = match m with
    | .book m => (p.builder.engine.call m.call).1
    | .stockDirectory m => p.builder.engine.prepare m.locate
    | .systemEvent _ => p.builder.engine
    | .other _ => p.builder.engine := by
  cases m with
  | book m =>
    change ((p.builder.onBookMessage (nullSink B) m)).engine = _
    rw [BookBuilder.onBookMessage_eq]
    rfl
  | stockDirectory m => rfl
  | systemEvent m => rfl
  | other q => rfl

/-- What the histogram counts. -/
def bucket (ge : Nat) : Nat := if ge < kMax then ge else kMax

/-- The histogram after some values were recorded. -/
theorem record_foldl (values : List Nat) : (values.foldl record p).total = p.total + values.length ∧
    (values.foldl record p).hist.length = p.hist.length ∧
    ∀ b < p.hist.length, (values.foldl record p).hist.getD b 0 = p.hist.getD b 0 + values.countP (bucket · = b) := by
  induction values generalizing p with
  | nil => exact ⟨rfl, rfl, fun b _ => rfl⟩
  | cons ge values ih =>
    obtain ⟨total, length, hist⟩ := ih (p.record ge)
    have kept : (p.record ge).hist.length = p.hist.length := List.length_modify ..
    refine ⟨?_, length.trans kept, ?_⟩
    · rw [List.foldl_cons, total, List.length_cons]
      change p.total + 1 + values.length = _
      omega
    · intro b inside
      have one : (p.record ge).hist.getD b 0 = p.hist.getD b 0 + if bucket ge = b then 1 else 0 := by
        change (p.hist.modify (bucket ge) (· + 1)).getD b 0 = _
        rw [List.getD_eq_getElem?_getD, List.getD_eq_getElem?_getD, List.getElem?_modify, List.getElem?_eq_getElem inside]
        split <;> rfl
      rw [List.foldl_cons, hist b (kept.symm ▸ inside), one, List.countP_cons]
      simp only [decide_eq_true_eq]
      omega

end Record

end DepthProfiler

end Itch
