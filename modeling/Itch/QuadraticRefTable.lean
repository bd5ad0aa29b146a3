import Itch.CtrlGroup
import Itch.Lib.Arrays
import Itch.Lib.SlotTable
import Itch.Lib.TriangularProbe
import Mathlib.Data.List.Perm.Basic

/-! The order lookup before the refactoring, a baseline of the benchmarks. -/
namespace Itch

open BitScan TriangularProbe

/-- The order data of a slot, in a second array beside the references. -/
structure QuadraticRefTable.Entry where
  ref : UInt64 := 0
  price : UInt64 := 0
  qty : UInt32 := 0
  side : UInt8 := 0
  deriving DecidableEq

structure QuadraticRefTable where
  log2Cap : Nat
  cap : Nat
  mask : Nat
  refs : List UInt64
  entries : List QuadraticRefTable.Entry

namespace QuadraticRefTable

def kEmpty : UInt64 := 0

def kTombstone : UInt64 := 0xFFFFFFFFFFFFFFFF

/-- At least two slots: `probe_start` shifts by less than 64. -/
def create (log2Cap : Nat) : QuadraticRefTable where
  log2Cap := log2Cap
  cap := 1 <<< log2Cap
  mask := 1 <<< log2Cap - 1
  refs := List.replicate (1 <<< log2Cap) kEmpty
  entries := List.replicate (1 <<< log2Cap) {}

def refAt (t : QuadraticRefTable) (slot : Nat) : UInt64 := t.refs.getD slot kEmpty

def entry (t : QuadraticRefTable) (slot : Nat) : Entry := t.entries.getD slot {}

def probeStart (t : QuadraticRefTable) (ref : UInt64) : Nat :=
  (ref * 11400714819323198485).toNat >>> (64 - t.log2Cap)

/-- The slot of round `i`, in the arithmetic of `size_t`. -/
def probe (t : QuadraticRefTable) (ref : UInt64) (i : Nat) : Nat :=
  (t.probeStart ref + i * (i + 1) % 2 ^ 64 / 2) % 2 ^ 64 &&& t.mask

def entryOf (ref : UInt64) : Entry := { ref := ref, price := 0, qty := ref.toUInt32, side := 66 }

def put (t : QuadraticRefTable) (slot : Nat) (ref : UInt64) : QuadraticRefTable :=
  { t with refs := t.refs.set slot ref, entries := t.entries.set slot (entryOf ref) }

/-- The last `n` rounds of `insert`, from round `i` on. -/
def insertFrom (t : QuadraticRefTable) (ref : UInt64) : Nat → Nat → QuadraticRefTable
  | 0, _ => t
  | n + 1, i =>
    let slot := t.probe ref i
    if t.refAt slot = kEmpty ∨ t.refAt slot = kTombstone then t.put slot ref else t.insertFrom ref n (i + 1)

def insert (t : QuadraticRefTable) (ref : UInt64) : QuadraticRefTable := t.insertFrom ref t.cap 0

def eraseSlot (t : QuadraticRefTable) (slot : Nat) : QuadraticRefTable :=
  { t with refs := t.refs.set slot kTombstone }

def findScalarFrom (t : QuadraticRefTable) (ref : UInt64) : Nat → Nat → Nat
  | 0, _ => t.cap
  | n + 1, i =>
    let slot := t.probe ref i
    if t.refAt slot = ref then slot else if t.refAt slot = kEmpty then t.cap else t.findScalarFrom ref n (i + 1)

/-- Gives the capacity for a reference that the table does not hold. -/
def findScalar (t : QuadraticRefTable) (ref : UInt64) : Nat := t.findScalarFrom ref t.cap 0

/-- `_mm256_cmpeq_epi64`. -/
def cmpeqEpi64 (a b : List UInt64) : List UInt64 :=
  List.zipWith (fun x y => if x = y then 0xFFFFFFFFFFFFFFFF else 0) a b

def laneBytes (x : UInt64) : List UInt8 := (List.range 8).map fun b => (x >>> (8 * b).toUInt64).toUInt8

/-- `_mm256_movemask_epi8` of 64-bit lanes. -/
def movemask (lanes : List UInt64) : Nat := movemaskEpi8 (lanes.flatMap laneBytes)

/-- The last `n` rounds of four slots, from slot `i` of the probe on. -/
def findAvx2From (t : QuadraticRefTable) (ref : UInt64) : Nat → Nat → Nat
  | 0, _ => t.cap
  | n + 1, i =>
    let slots := (List.range 4).map fun l => t.probe ref (i + l)
    let hit := movemask (cmpeqEpi64 (slots.map t.refAt) (List.replicate 4 ref))
    let empty := movemask (cmpeqEpi64 (slots.map t.refAt) (List.replicate 4 kEmpty))
    if hit ≠ 0 then slots.getD (countrZero hit / 8) 0
    else if empty ≠ 0 then t.cap else t.findAvx2From ref n (i + 4)

def findAvx2 (t : QuadraticRefTable) (ref : UInt64) : Nat := t.findAvx2From ref ((t.cap + 3) / 4) 0

/-- What a user of the table does: it erases what it finds, by either lookup. -/
inductive Call where
  | insert (ref : UInt64)
  | erase (avx2 : Bool) (ref : UInt64)
  deriving DecidableEq

def Call.ref : Call → UInt64
  | .insert ref => ref
  | .erase _ ref => ref

def step (t : QuadraticRefTable) : Call → QuadraticRefTable
  | .insert ref => t.insert ref
  | .erase avx2 ref =>
    let slot := if avx2 then t.findAvx2 ref else t.findScalar ref
    if slot = t.cap then t else t.eraseSlot slot

/-- The references of a table of `cap` slots: a full one takes no more, and a reference can be in it twice. -/
def bagStep (cap : Nat) (bag : List UInt64) : Call → List UInt64
  | .insert ref => if bag.length < cap then ref :: bag else bag
  | .erase _ ref => bag.erase ref

/-! ## The masks of four lanes -/

theorem movemask_cons (x : UInt64) (lanes : List UInt64) (j : Nat) :
    (movemask (x :: lanes)).testBit j ↔
      if j < 8 then (movemaskEpi8 (laneBytes x)).testBit j else (movemask lanes).testBit (j - 8) := by
  have eight : (laneBytes x).length = 8 := by simp [laneBytes]
  rw [movemask, List.flatMap_cons, testBit_movemaskEpi8]
  split
  · next low => rw [List.getElem?_append_left (by omega), testBit_movemaskEpi8]
  · next high => rw [List.getElem?_append_right (by omega), eight, movemask, testBit_movemaskEpi8]

/-- The mask of a compare has eight bits for each equal lane. -/
theorem testBit_movemask_cmpeq (refs : List UInt64) (ref : UInt64) (j : Nat) :
    (movemask (cmpeqEpi64 refs (List.replicate refs.length ref))).testBit j ↔ refs[j / 8]? = some ref := by
  induction refs generalizing j with
  | nil => simp [cmpeqEpi64, movemask, movemaskEpi8]
  | cons x refs ih =>
    rw [List.length_cons, List.replicate_succ, cmpeqEpi64, List.zipWith_cons_cons, movemask_cons]
    split
    · next low =>
      have lane : j / 8 = 0 := by omega
      rw [lane, List.getElem?_cons_zero, Option.some.injEq]
      have ones : ∀ j < 8, (movemaskEpi8 (laneBytes 0xFFFFFFFFFFFFFFFF)).testBit j = true := by decide
      have zeros : movemaskEpi8 (laneBytes 0) = 0 := by decide
      by_cases same : x = ref
      · rw [if_pos same, ones j low]
        simp [same]
      · rw [if_neg same, zeros]
        simp [same]
    · next high =>
      have lane : j / 8 = (j - 8) / 8 + 1 := by omega
      rw [lane, List.getElem?_cons_succ]
      exact ih (j - 8)

theorem movemask_ne_zero {refs : List UInt64} {ref : UInt64} :
    movemask (cmpeqEpi64 refs (List.replicate refs.length ref)) ≠ 0 ↔ ref ∈ refs := by
  constructor
  · intro nonzero
    obtain ⟨j, bit⟩ := Nat.exists_testBit_of_ne_zero nonzero
    exact List.mem_of_getElem? ((testBit_movemask_cmpeq refs ref j).mp bit)
  · intro member zero
    obtain ⟨l, lane⟩ := List.mem_iff_getElem?.mp member
    have bit := (testBit_movemask_cmpeq refs ref (8 * l)).mpr (by rw [Nat.mul_div_cancel_left l (by decide)]; exact lane)
    rw [zero, Nat.zero_testBit] at bit
    cases bit

/-- The lowest set bit of the mask is in the first equal lane. -/
theorem movemask_first {refs : List UInt64} {ref : UInt64} (few : refs.length ≤ 8) (member : ref ∈ refs) :
    ∃ l, countrZero (movemask (cmpeqEpi64 refs (List.replicate refs.length ref))) / 8 = l ∧
      refs[l]? = some ref ∧ ∀ l' < l, refs[l']? ≠ some ref := by
  have eight (lanes : List UInt64) : (lanes.flatMap laneBytes).length = 8 * lanes.length := by
    induction lanes with
    | nil => rfl
    | cons x lanes ih => rw [List.flatMap_cons, List.length_append, ih, List.length_cons, Nat.mul_succ, Nat.add_comm]; rfl
  have small : movemask (cmpeqEpi64 refs (List.replicate refs.length ref)) < 2 ^ 64 := by
    refine Nat.lt_of_lt_of_le (movemaskEpi8_lt _) (Nat.pow_le_pow_right (by decide) ?_)
    rw [eight, cmpeqEpi64, List.length_zipWith, List.length_replicate, Nat.min_self]
    omega
  obtain ⟨-, bit, low⟩ := countrZero_spec small (movemask_ne_zero.mpr member)
  refine ⟨_, rfl, (testBit_movemask_cmpeq refs ref _).mp bit, fun l' before lane => ?_⟩
  refine low (8 * l') (by omega) ((testBit_movemask_cmpeq refs ref _).mpr ?_)
  rw [Nat.mul_div_cancel_left l' (by decide)]
  exact lane

/-! ## Lookups of a table that is well formed -/

/-- A reference that stands for an order in a slot. -/
def Live (ref : UInt64) : Prop := ref ≠ kEmpty ∧ ref ≠ kTombstone

instance (ref : UInt64) : Decidable (Live ref) := inferInstanceAs (Decidable (_ ∧ _))

/-- The slots that the probe of `ref` passes before `slot` are not empty. -/
def Chained (k : Nat) (t : QuadraticRefTable) (ref : UInt64) (slot : Nat) : Prop :=
  ∃ j, visit k (t.probeStart ref) j = slot ∧ ∀ j' < j, t.refAt (visit k (t.probeStart ref) j') ≠ kEmpty

/-- Every order is reached from its start past slots that are not empty, and has its entry. -/
structure WF (k : Nat) (t : QuadraticRefTable) : Prop where
  log2Cap : t.log2Cap = k
  cap : t.cap = 2 ^ k
  mask : t.mask = 2 ^ k - 1
  refs : t.refs.length = 2 ^ k
  entries : t.entries.length = 2 ^ k
  chain : ∀ slot, Live (t.refAt slot) → t.Chained k (t.refAt slot) slot
  stored : ∀ slot, Live (t.refAt slot) → t.entry slot = entryOf (t.refAt slot)

/-- What a lookup gives: the first slot of the probe with the reference, or the capacity. -/
inductive Finds (k : Nat) (t : QuadraticRefTable) (ref : UInt64) : Nat → Prop
  | hit {j : Nat} (found : t.refAt (visit k (t.probeStart ref) j) = ref)
      (first : ∀ j' < j, t.refAt (visit k (t.probeStart ref) j') ≠ ref) : Finds k t ref (visit k (t.probeStart ref) j)
  | miss (none : ∀ slot < 2 ^ k, t.refAt slot ≠ ref) : Finds k t ref t.cap

variable {k : Nat} {t : QuadraticRefTable} {ref : UInt64}

theorem Finds.unique {r r' : Nat} (finds : Finds k t ref r) (finds' : Finds k t ref r') : r = r' := by
  cases finds with
  | @hit j found first =>
    cases finds' with
    | @hit j' found' first' =>
      have same : j = j' := by
        rcases Nat.lt_trichotomy j j' with before | same | after
        · exact absurd found (first' j before)
        · exact same
        · exact absurd found' (first j' after)
      rw [same]
    | miss none => exact absurd found (none _ (visit_lt _ _ _))
  | miss none =>
    cases finds' with
    | hit found first => exact absurd found (none _ (visit_lt _ _ _))
    | miss none' => rfl

theorem probeStart_lt (t : QuadraticRefTable) (ref : UInt64) (few : t.log2Cap ≤ 64) : t.probeStart ref < 2 ^ t.log2Cap := by
  have word := (ref * 11400714819323198485).toNat_lt
  rw [probeStart, Nat.shiftRight_eq_div_pow, Nat.div_lt_iff_lt_mul (Nat.two_pow_pos _), ← Nat.pow_add, Nat.add_sub_cancel' few]
  exact word

/-- Below 2^32 rounds the probe does not overflow. -/
theorem WF.probe_eq (wf : t.WF k) (few : k ≤ 32) (ref : UInt64) {i : Nat} (early : i < 2 ^ 32) :
    t.probe ref i = visit k (t.probeStart ref) i := by
  have home := t.probeStart_lt ref (by rw [wf.log2Cap]; omega)
  have cap : 2 ^ t.log2Cap ≤ 2 ^ 32 := Nat.pow_le_pow_right (by decide) (by rw [wf.log2Cap]; exact few)
  have square : i * (i + 1) ≤ (2 ^ 32 - 1) * 2 ^ 32 := Nat.mul_le_mul (by omega) (by omega)
  have steps := two_mul_offset i
  rw [probe, Nat.mod_eq_of_lt (by omega : i * (i + 1) < 2 ^ 64), ← steps, Nat.mul_div_cancel_left _ (by decide),
    Nat.mod_eq_of_lt (by omega), wf.mask, Nat.and_two_pow_sub_one_eq_mod, visit]

/-- At an empty slot the probe has passed every slot that the reference could be in. -/
theorem WF.missing (wf : t.WF k) (valid : ref ≠ kTombstone) {j : Nat} (empty : t.refAt (visit k (t.probeStart ref) j) = kEmpty)
    (passed : ∀ j' ≤ j, t.refAt (visit k (t.probeStart ref) j') ≠ ref) (slot : Nat) : t.refAt slot ≠ ref := by
  rintro rfl
  have nonempty : t.refAt slot ≠ kEmpty := fun none => passed j (Nat.le_refl j) (empty.trans none.symm)
  obtain ⟨j₀, arrives, chain⟩ := wf.chain slot ⟨nonempty, valid⟩
  rcases Nat.lt_or_ge j j₀ with before | reached
  · exact chain j before empty
  · exact passed j₀ reached (congrArg t.refAt arrives)

/-- A full round of the probe has passed every slot. -/
theorem missing_round {j : Nat} (round : 2 ^ k ≤ j) (passed : ∀ j' < j, t.refAt (visit k (t.probeStart ref) j') ≠ ref) :
    ∀ slot < 2 ^ k, t.refAt slot ≠ ref := by
  intro slot inside
  obtain ⟨j', before, rfl⟩ := visit_surjective (t.probeStart ref) inside
  exact passed j' (by omega)

section

variable (wf : t.WF k) (few : k ≤ 32) (valid : ref ≠ kTombstone)
include wf few valid

theorem findScalarFrom_finds (n : Nat) {i : Nat} (left : i + n = 2 ^ k)
    (passed : ∀ j < i, t.refAt (visit k (t.probeStart ref) j) ≠ ref) : Finds k t ref (t.findScalarFrom ref n i) := by
  have cap : 2 ^ k ≤ 2 ^ 32 := Nat.pow_le_pow_right (by decide) few
  induction n generalizing i with
  | zero => exact .miss (missing_round (Nat.le_of_eq left.symm) passed)
  | succ n ih =>
    rw [findScalarFrom, wf.probe_eq few ref (by omega)]
    split
    · next hit => exact .hit hit passed
    · next other =>
      have passed' : ∀ j < i + 1, t.refAt (visit k (t.probeStart ref) j) ≠ ref :=
        Nat.forall_lt_succ_right.mpr ⟨passed, other⟩
      split
      · next empty => exact .miss fun slot _ => wf.missing valid empty (fun j le => passed' j (by omega)) slot
      · next full => exact ih (by omega) passed'

/-- Four slots at once: a hit beats an empty slot before it, and there is none. -/
theorem findAvx2From_finds (n : Nat) {i : Nat} (covered : 2 ^ k ≤ i + 4 * n) (early : i + 4 * n ≤ 2 ^ 32)
    (passed : ∀ j < i, t.refAt (visit k (t.probeStart ref) j) ≠ ref) : Finds k t ref (t.findAvx2From ref n i) := by
  induction n generalizing i with
  | zero => exact .miss (missing_round covered passed)
  | succ n ih =>
    have slots : (List.range 4).map (fun l => t.probe ref (i + l)) =
        (List.range 4).map fun l => visit k (t.probeStart ref) (i + l) := by
      refine List.map_congr_left fun l member => wf.probe_eq few ref ?_
      have lane := List.mem_range.mp member
      omega
    have lane (l : Nat) (inside : l < 4) : ((List.range 4).map (t.refAt ∘ fun l => visit k (t.probeStart ref) (i + l)))[l]? =
        some (t.refAt (visit k (t.probeStart ref) (i + l))) := by simp [inside]
    have four : ((List.range 4).map (t.refAt ∘ fun l => visit k (t.probeStart ref) (i + l))).length = 4 := by simp
    rw [findAvx2From, slots, List.map_map]
    generalize (List.range 4).map (t.refAt ∘ _) = refs at lane four ⊢
    rw [← four]
    split
    · next hit =>
      obtain ⟨l, lowest, found, first⟩ := movemask_first (by omega) (movemask_ne_zero.mp hit)
      have inside : l < 4 := four ▸ (List.getElem?_eq_some_iff.mp found).1
      rw [lane l inside, Option.some.injEq] at found
      rw [lowest, four, Arrays.getD_map_range _ _ inside]
      refine .hit found fun j before => ?_
      rcases Nat.lt_or_ge j i with early | late
      · exact passed j early
      · obtain ⟨l', rfl⟩ := Nat.exists_eq_add_of_le late
        have other := first l' (by omega)
        rwa [lane l' (by omega), ne_eq, Option.some.injEq] at other
    · next none =>
      have passed' : ∀ j < i + 4, t.refAt (visit k (t.probeStart ref) j) ≠ ref := by
        intro j before found
        rcases Nat.lt_or_ge j i with early | late
        · exact passed j early found
        · obtain ⟨l, rfl⟩ := Nat.exists_eq_add_of_le late
          refine none (movemask_ne_zero.mpr (List.mem_of_getElem? (i := l) ?_))
          rw [lane l (by omega), found]
      split
      · next empty =>
        obtain ⟨l, found⟩ := List.mem_iff_getElem?.mp (movemask_ne_zero.mp empty)
        have inside : l < 4 := four ▸ (List.getElem?_eq_some_iff.mp found).1
        rw [lane l inside, Option.some.injEq] at found
        exact .miss fun slot _ => wf.missing valid found (fun j le => passed' j (by omega)) slot
      · next full =>
        rw [four]
        exact ih (by omega) (by omega) passed'

theorem findScalar_finds : Finds k t ref (t.findScalar ref) := by
  rw [findScalar, wf.cap]
  exact findScalarFrom_finds wf few valid _ (Nat.zero_add _) fun j before => absurd before (Nat.not_lt_zero j)

theorem findAvx2_finds : Finds k t ref (t.findAvx2 ref) := by
  have cap : 2 ^ k ≤ 2 ^ 32 := Nat.pow_le_pow_right (by decide) few
  rw [findAvx2, wf.cap]
  exact findAvx2From_finds wf few valid _ (by omega) (by omega) fun j before => absurd before (Nat.not_lt_zero j)

end

/-! ## What the table holds -/

def live (t : QuadraticRefTable) (slot : Nat) : Option UInt64 := if Live (t.refAt slot) then some (t.refAt slot) else none

theorem live_eq_some {slot : Nat} : t.live slot = some ref ↔ t.refAt slot = ref ∧ Live ref := by
  rw [live]
  split
  · next alive =>
    rw [Option.some.injEq]
    exact ⟨fun same => ⟨same, same ▸ alive⟩, And.left⟩
  · next dead =>
    refine ⟨nofun, ?_⟩
    rintro ⟨rfl, alive⟩
    exact absurd alive dead

theorem live_eq_none {slot : Nat} : t.live slot = none ↔ ¬Live (t.refAt slot) := by
  rw [live]
  split <;> simp [*]

theorem put_refAt {slot : Nat} (inside : slot < t.refs.length) (ref : UInt64) (s : Nat) :
    (t.put slot ref).refAt s = if s = slot then ref else t.refAt s := Arrays.getD_set inside ref kEmpty s

theorem eraseSlot_refAt {slot : Nat} (inside : slot < t.refs.length) (s : Nat) :
    (t.eraseSlot slot).refAt s = if s = slot then kTombstone else t.refAt s := Arrays.getD_set inside kTombstone kEmpty s

theorem put_entry {slot : Nat} (inside : slot < t.entries.length) (ref : UInt64) (s : Nat) :
    (t.put slot ref).entry s = if s = slot then entryOf ref else t.entry s := Arrays.getD_set inside (entryOf ref) {} s

theorem put_live {slot : Nat} (inside : slot < t.refs.length) (alive : Live ref) :
    (t.put slot ref).live = Function.update t.live slot (some ref) := by
  funext s
  rw [live, put_refAt inside, Function.update_apply]
  split
  · rfl
  · rfl

theorem eraseSlot_live {slot : Nat} (inside : slot < t.refs.length) :
    (t.eraseSlot slot).live = Function.update t.live slot none := by
  funext s
  rw [live, eraseSlot_refAt inside, Function.update_apply]
  split
  · exact if_neg (by decide)
  · rfl

/-- A write that empties no slot breaks no chain. -/
theorem Chained.set {t' : QuadraticRefTable} {slot : Nat} (chained : t.Chained k ref slot) (same : t'.log2Cap = t.log2Cap)
    (kept : ∀ s, t.refAt s ≠ kEmpty → t'.refAt s ≠ kEmpty) : t'.Chained k ref slot := by
  obtain ⟨j, arrives, full⟩ := chained
  have start : t'.probeStart ref = t.probeStart ref := by rw [probeStart, probeStart, same]
  refine ⟨j, start ▸ arrives, fun j' before => ?_⟩
  rw [start]
  exact kept _ (full j' before)

theorem WF.put (wf : t.WF k) {slot : Nat} (inside : slot < 2 ^ k) (alive : Live ref) (chained : t.Chained k ref slot) :
    (t.put slot ref).WF k := by
  have refs : slot < t.refs.length := wf.refs.symm ▸ inside
  have entries : slot < t.entries.length := wf.entries.symm ▸ inside
  have kept (s : Nat) (full : t.refAt s ≠ kEmpty) : (t.put slot ref).refAt s ≠ kEmpty := by
    rw [put_refAt refs]
    split
    · exact alive.1
    · exact full
  refine ⟨wf.log2Cap, wf.cap, wf.mask, (List.length_set ..).trans wf.refs, (List.length_set ..).trans wf.entries, ?_, ?_⟩
  · intro s
    rw [put_refAt refs]
    split
    · next here =>
      intro _
      rw [here]
      exact chained.set rfl kept
    · exact fun other => (wf.chain s other).set rfl kept
  · intro s
    rw [put_refAt refs, put_entry entries]
    split
    · exact fun _ => rfl
    · exact wf.stored s

theorem WF.eraseSlot (wf : t.WF k) {slot : Nat} (inside : slot < 2 ^ k) : (t.eraseSlot slot).WF k := by
  have refs : slot < t.refs.length := wf.refs.symm ▸ inside
  have kept (s : Nat) (full : t.refAt s ≠ kEmpty) : (t.eraseSlot slot).refAt s ≠ kEmpty := by
    rw [eraseSlot_refAt refs]
    split
    · decide
    · exact full
  refine ⟨wf.log2Cap, wf.cap, wf.mask, (List.length_set ..).trans wf.refs, wf.entries, ?_, ?_⟩
  · intro s
    rw [eraseSlot_refAt refs]
    split
    · exact fun alive => absurd rfl alive.2
    · exact fun alive => (wf.chain s alive).set rfl kept
  · intro s
    rw [eraseSlot_refAt refs]
    split
    · exact fun alive => absurd rfl alive.2
    · exact wf.stored s

theorem create_refAt (k slot : Nat) : (create k).refAt slot = kEmpty := by
  rw [refAt, create, List.getD_eq_getElem?_getD, List.getElem?_replicate]
  split <;> rfl

theorem create_wf (k : Nat) : (create k).WF k := by
  have size : 1 <<< k = 2 ^ k := Nat.one_shiftLeft k
  refine ⟨rfl, size, congrArg (· - 1) size, ?_, ?_, ?_, ?_⟩
  · rw [create, List.length_replicate, size]
  · rw [create, List.length_replicate, size]
  · intro slot alive
    exact absurd (create_refAt k slot) alive.1
  · intro slot alive
    exact absurd (create_refAt k slot) alive.1

theorem create_contents (k n : Nat) : SlotTable.contents n (create k).live = [] := by
  have dead : (create k).live = fun _ => none := by
    funext slot
    rw [live_eq_none, create_refAt]
    decide
  rw [dead, SlotTable.contents_none]

/-- `insert` fills the first free slot of its probe, past live ones only, unless the table is full. -/
theorem insertFrom_cases (wf : t.WF k) (few : k ≤ 32) (ref : UInt64) (n : Nat) {i : Nat} (left : i + n = 2 ^ k)
    (passed : ∀ j < i, Live (t.refAt (visit k (t.probeStart ref) j))) :
    (∃ slot < 2 ^ k, t.live slot = none ∧ t.Chained k ref slot ∧ t.insertFrom ref n i = t.put slot ref) ∨
      (∀ slot < 2 ^ k, t.live slot ≠ none) ∧ t.insertFrom ref n i = t := by
  have cap : 2 ^ k ≤ 2 ^ 32 := Nat.pow_le_pow_right (by decide) few
  induction n generalizing i with
  | zero =>
    refine .inr ⟨fun slot inside none => ?_, rfl⟩
    obtain ⟨j, before, rfl⟩ := visit_surjective (t.probeStart ref) inside
    exact live_eq_none.mp none (passed j (by omega))
  | succ n ih =>
    rw [insertFrom, wf.probe_eq few ref (by omega)]
    split
    · next free =>
      have chained : t.Chained k ref (visit k (t.probeStart ref) i) := ⟨i, rfl, fun j before => (passed j before).1⟩
      refine .inl ⟨_, visit_lt _ _ _, live_eq_none.mpr fun alive => ?_, chained, rfl⟩
      exact free.elim alive.1 alive.2
    · next full =>
      refine ih (by omega) (Nat.forall_lt_succ_right.mpr ⟨passed, ?_⟩)
      exact ⟨fun empty => full (.inl empty), fun tombstone => full (.inr tombstone)⟩

/-! ## Runs -/

/-- The table is well formed, and its slots hold the bag. -/
structure Holds (k : Nat) (t : QuadraticRefTable) (bag : List UInt64) : Prop where
  wf : t.WF k
  contents : (SlotTable.contents (2 ^ k) t.live).Perm bag

theorem Holds.mem {bag : List UInt64} (holds : t.Holds k bag) :
    ref ∈ bag ↔ ∃ slot < 2 ^ k, t.refAt slot = ref ∧ Live ref := by
  rw [← holds.contents.mem_iff, SlotTable.mem_contents]
  simp only [live_eq_some]

theorem Holds.find {bag : List UInt64} (holds : t.Holds k bag) (alive : Live ref) {r : Nat} (finds : Finds k t ref r) :
    (ref ∈ bag ∧ r < 2 ^ k ∧ t.live r = some ref) ∨ (ref ∉ bag ∧ r = t.cap) := by
  cases finds with
  | hit found first =>
    have inside := visit_lt k (t.probeStart ref)
    exact .inl ⟨holds.mem.mpr ⟨_, inside _, found, alive⟩, inside _, live_eq_some.mpr ⟨found, alive⟩⟩
  | miss none =>
    refine .inr ⟨fun member => ?_, rfl⟩
    obtain ⟨slot, inside, found, -⟩ := holds.mem.mp member
    exact none slot inside found

theorem Holds.step {bag : List UInt64} (holds : t.Holds k bag) (few : k ≤ 32) {call : Call} (alive : Live call.ref) :
    (t.step call).Holds k (bagStep (2 ^ k) bag call) := by
  cases call with
  | insert ref =>
    change Live ref at alive
    have room : bag.length < 2 ^ k ↔ ∃ slot < 2 ^ k, t.live slot = none := by
      rw [← holds.contents.length_eq, SlotTable.contents_length_lt]
    show (t.insert ref).Holds k (if bag.length < 2 ^ k then ref :: bag else bag)
    rw [insert, holds.wf.cap]
    rcases insertFrom_cases holds.wf few ref (2 ^ k) (Nat.zero_add _) fun j before => absurd before (Nat.not_lt_zero j) with
      ⟨slot, inside, free, chained, put⟩ | ⟨full, same⟩
    · rw [put, if_pos (room.mpr ⟨slot, inside, free⟩)]
      refine ⟨holds.wf.put inside alive chained, ?_⟩
      rw [put_live (holds.wf.refs.symm ▸ inside) alive]
      exact (SlotTable.contents_fill inside free ref).trans (holds.contents.cons ref)
    · rw [same, if_neg fun small => ?_]
      · exact holds
      · obtain ⟨slot, inside, free⟩ := room.mp small
        exact full slot inside free
  | erase avx2 ref =>
    change Live ref at alive
    have finds : Finds k t ref (if avx2 then t.findAvx2 ref else t.findScalar ref) := by
      split
      · exact findAvx2_finds holds.wf few alive.2
      · exact findScalar_finds holds.wf few alive.2
    show Holds k (if (if avx2 then t.findAvx2 ref else t.findScalar ref) = t.cap then t else _) (bag.erase ref)
    generalize (if avx2 then t.findAvx2 ref else t.findScalar ref) = r at finds
    rcases holds.find alive finds with ⟨member, inside, found⟩ | ⟨absent, rfl⟩
    · rw [if_neg (by rw [holds.wf.cap]; omega)]
      refine ⟨holds.wf.eraseSlot inside, ?_⟩
      rw [eraseSlot_live (holds.wf.refs.symm ▸ inside)]
      have taken := (SlotTable.contents_take inside found).symm.trans (holds.contents.trans (List.perm_cons_erase member))
      exact taken.cons_inv
    · rw [if_pos rfl, List.erase_of_not_mem absent]
      exact holds

theorem Holds.run {calls : List Call} {bag : List UInt64} (holds : t.Holds k bag) (few : k ≤ 32)
    (alive : ∀ call ∈ calls, Live call.ref) :
    (calls.foldl QuadraticRefTable.step t).Holds k (calls.foldl (bagStep (2 ^ k)) bag) := by
  induction calls generalizing t bag with
  | nil => exact holds
  | cons call calls ih =>
    have rest := List.forall_mem_cons.mp alive
    exact ih (holds.step few rest.1) rest.2

/-- In every run of inserts and erases the four-slot lookup gives the slot that the scalar one
gives, and both find exactly the references that were inserted and not erased, with their entries. -/
theorem lookups_agree {k : Nat} (few : k ≤ 32) {calls : List Call} (alive : ∀ call ∈ calls, Live call.ref)
    {ref : UInt64} (valid : ref ≠ kTombstone) :
    (calls.foldl step (create k)).findAvx2 ref = (calls.foldl step (create k)).findScalar ref ∧
      (ref ≠ kEmpty → if ref ∈ calls.foldl (bagStep (2 ^ k)) [] then
          (calls.foldl step (create k)).findScalar ref < 2 ^ k ∧
            (calls.foldl step (create k)).entry ((calls.foldl step (create k)).findScalar ref) = entryOf ref
        else (calls.foldl step (create k)).findScalar ref = (calls.foldl step (create k)).cap) := by
  have holds : Holds k (calls.foldl step (create k)) (calls.foldl (bagStep (2 ^ k)) []) :=
    Holds.run ⟨create_wf k, create_contents k _ ▸ .nil⟩ few alive
  generalize calls.foldl step (create k) = t at holds
  generalize calls.foldl (bagStep (2 ^ k)) [] = bag at holds
  have finds := findScalar_finds holds.wf few valid
  refine ⟨(findAvx2_finds holds.wf few valid).unique finds, fun nonempty => ?_⟩
  rcases holds.find ⟨nonempty, valid⟩ finds with ⟨member, inside, found⟩ | ⟨absent, missed⟩
  · obtain ⟨same, alive⟩ := live_eq_some.mp found
    rw [if_pos member]
    refine ⟨inside, ?_⟩
    rw [holds.wf.stored _ (same.symm ▸ alive), same]
  · rw [if_neg absent]
    exact missed

theorem lookups_agree_sample :
    (([.insert 7, .insert 9, .insert 7, .erase true 7, .erase false 9] : List Call).foldl step (create 2)).findAvx2 7 =
      (([.insert 7, .insert 9, .insert 7, .erase true 7, .erase false 9] : List Call).foldl step (create 2)).findScalar 7 := by
  have alive : ∀ call ∈ ([.insert 7, .insert 9, .insert 7, .erase true 7, .erase false 9] : List Call), Live call.ref := by
    decide
  exact (@lookups_agree 2 (by decide) _ alive 7 (by decide)).1

/-- The lookups of the tombstone itself differ where an empty slot stands before one. -/
example : (((create 2).insert 1).eraseSlot 2).findAvx2 kTombstone = 2 ∧
    (((create 2).insert 1).eraseSlot 2).findScalar kTombstone = 4 := by decide

end QuadraticRefTable

end Itch
