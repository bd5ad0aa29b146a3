import Itch.LevelKeys
import Itch.Lib.Runs
import Mathlib.Data.Set.Card
import Mathlib.Order.Interval.Finset.Nat

namespace Itch

/-- What a level holds: its shares and how many orders they are of. -/
structure LevelTotal where
  qty : Nat
  orders : Nat

/-- One side of a book as a finite map, from the keys of its levels to what they hold. -/
abbrev LevelMap := UInt32 → Option LevelTotal

/-- A call on a side. -/
inductive SideCall where
  | add (key shares : UInt32)
  | reduce (key shares : UInt32) (orderGone : Bool)

namespace LevelTotal

def join (shares : UInt32) : Option LevelTotal → LevelTotal
  | none => ⟨shares.toNat, 1⟩
  | some l => ⟨l.qty + shares.toNat, l.orders + 1⟩

def leave (shares : UInt32) (gone : Bool) (l : LevelTotal) : Option LevelTotal :=
  let orders := l.orders - if gone then 1 else 0
  if orders = 0 then none else some ⟨l.qty - shares.toNat, orders⟩

theorem leave_orders {shares : UInt32} {gone : Bool} {l left : LevelTotal} (bound : l.orders < 2 ^ 32)
    (found : l.leave shares gone = some left) : 1 ≤ left.orders ∧ left.orders < 2 ^ 32 := by
  unfold leave at found
  dsimp only at found
  generalize (if gone then 1 else 0) = k at found
  split at found
  · cases found
  · obtain rfl := Option.some.inj found
    dsimp only
    omega

end LevelTotal

namespace LevelMap

def empty : LevelMap := fun _ => none

/-- The keys of the levels. -/
def held (m : LevelMap) : Set UInt32 := {key | m key ≠ none}

theorem mem_held {m : LevelMap} {key : UInt32} {l : LevelTotal} (found : m key = some l) : key ∈ m.held :=
  found.trans_ne (Option.some_ne_none l)

/-- No level is better than the one at `key`. -/
def IsBest (m : LevelMap) (key : UInt32) : Prop := key ∈ m.held ∧ ∀ other ∈ m.held, other ≤ key

def apply (m : LevelMap) : SideCall → LevelMap
  | .add key shares => Function.update m key (some (.join shares (m key)))
  | .reduce key shares gone => Function.update m key ((m key).bind (LevelTotal.leave shares gone))

def run (calls : List SideCall) : LevelMap := calls.foldl apply empty

/-- A level has fewer than 2 ^ 32 orders; no call takes more than a level holds, and the last
order that goes takes all that is left. -/
def Legal (m : LevelMap) : SideCall → Prop
  | .add key _ => ∀ l, m key = some l → l.orders + 1 < 2 ^ 32
  | .reduce key shares gone => ∀ l, m key = some l →
      shares.toNat ≤ l.qty ∧ (if gone then 1 else 0) ≤ l.orders ∧ (gone = true → l.orders = 1 → l.qty = shares.toNat)

/-- Whether a call opens no level on a side that has 2 ^ 31. -/
def Room (m : LevelMap) : SideCall → Prop
  | .add key _ => key ∈ m.held ∨ m.held.ncard < 2 ^ 31
  | .reduce _ _ _ => True

def LegalAll (calls : List SideCall) : Prop := Runs.Every apply Legal empty calls

def RoomAll (calls : List SideCall) : Prop := Runs.Every apply Room empty calls

end LevelMap

namespace LevelSide

variable (search : LevelSearch)

def apply (s : LevelSide) : SideCall → LevelSide
  | .add key shares => (s.add search key shares).1
  | .reduce key shares gone => (s.reduce search key shares gone).1

def run (calls : List SideCall) : LevelSide := calls.foldl (apply search) {}

/-- The arrays describe `m`: each of the first `size` elements is a level, in ascending order,
and there is one for each level of `m`. The shares are kept modulo 2 ^ 64. -/
structure Describes (s : LevelSide) (m : LevelMap) : Prop where
  fits : s.size ≤ s.cap
  keys : s.keys.length = s.cap
  qty : s.qty.length = s.cap
  orders : s.orders.length = s.cap
  ascending : ∀ i j, i < j → j < s.size → keyAt s.keys i < keyAt s.keys j
  level : ∀ i < s.size, ∃ l, m (keyAt s.keys i) = some l ∧ 1 ≤ l.orders ∧ s.qtyAt i = UInt64.ofNat l.qty ∧
    (s.ordersAt i).toNat = l.orders
  complete : ∀ key ∈ m.held, ∃ i < s.size, keyAt s.keys i = key
  /-- The accessors count levels from the best one. -/
  ranked : ∀ i < s.size, {key ∈ m.held | s.keyAtLevel i < key}.ncard = i ∧ ∃ l, m (s.keyAtLevel i) = some l ∧
    s.qtyAtLevel i = UInt64.ofNat l.qty ∧ (s.ordersAtLevel i).toNat = l.orders

/-- What a call answers on a side that describes `m`. -/
def Answers (s : LevelSide) (m : LevelMap) : SideCall → Prop
  | .add key shares => (s.add search key shares).2 = true ↔ m.IsBest key ∨ (m.apply (.add key shares)).IsBest key
  | .reduce key shares gone =>
    (key ∉ m.held → s.reduce search key shares gone = (s, .missingLevel)) ∧
    (key ∈ m.held → (s.reduce search key shares gone).2 ≠ .missingLevel ∧
      ((s.reduce search key shares gone).2 = .topChanged ↔ m.IsBest key ∨ (m.apply (.reduce key shares gone)).IsBest key))

/-- The levels of `m`, with their numbers as the arrays keep them. -/
structure Holds (s : LevelSide) (m : LevelMap) : Prop where
  wf : s.WF
  lookup : ∀ key, s.lookup key = (m key).map fun l => ⟨key, UInt64.ofNat l.qty, UInt32.ofNat l.orders⟩
  counts : ∀ key l, m key = some l → 1 ≤ l.orders ∧ l.orders < 2 ^ 32

variable {search} {s t : LevelSide} {m m' : LevelMap}

theorem empty_holds : ({} : LevelSide).Holds .empty := ⟨empty_wf, fun _ => rfl, fun _ _ none => by cases none⟩

namespace Holds

theorem mem_held (holds : s.Holds m) {key : UInt32} : key ∈ m.held ↔ key ∈ s.keysHeld := by
  rw [mem_keysHeld, holds.lookup, Ne, Option.map_eq_none_iff]
  rfl

/-- The level at an index. -/
theorem level (holds : s.Holds m) {i : Nat} (inside : i < s.size) :
    ∃ l, m (keyAt s.keys i) = some l ∧ 1 ≤ l.orders ∧ s.qtyAt i = UInt64.ofNat l.qty ∧ (s.ordersAt i).toNat = l.orders := by
  have member : s.level i ∈ s.levels := Arrays.mem_segment.mpr ⟨i, Nat.zero_le i, by omega, rfl⟩
  have found := holds.wf.lookup_level member
  have held := holds.lookup (keyAt s.keys i)
  change s.lookup (keyAt s.keys i) = _ at found
  rw [held] at found
  obtain ⟨l, here, same⟩ := Option.map_eq_some_iff.mp found
  obtain ⟨positive, bound⟩ := holds.counts _ l here
  have qty := congrArg Level.qty same
  have orders := congrArg (fun l : Level => l.orders.toNat) same
  refine ⟨l, here, positive, qty.symm, orders.symm.trans ?_⟩
  exact (UInt32.toNat_ofNat' ..).trans (Nat.mod_eq_of_lt bound)

theorem mem_keysHeld_iff {key : UInt32} : key ∈ s.keysHeld ↔ ∃ i < s.size, keyAt s.keys i = key := by
  simp only [keysHeld, levels, List.mem_map, Arrays.mem_segment]
  constructor
  · rintro ⟨l, ⟨i, -, inside, rfl⟩, rfl⟩
    exact ⟨i, by omega, rfl⟩
  · rintro ⟨i, inside, rfl⟩
    exact ⟨s.level i, ⟨i, Nat.zero_le i, by omega, rfl⟩, rfl⟩

/-- A map has as many levels as the arrays. -/
theorem ncard_held (holds : s.Holds m) : m.held.ncard = s.size := by
  have held : m.held = (s.keysHeld.toFinset : Set UInt32) := by
    ext key
    rw [List.coe_toFinset]
    exact holds.mem_held
  rw [held, Set.ncard_coe_finset, List.toFinset_card_of_nodup holds.wf.keysHeld_nodup, keysHeld_length]

end Holds

/-- The level that is `i` from the best has `i` better ones. -/
theorem Holds.ranked (holds : s.Holds m) {i : Nat} (inside : i < s.size) : {key ∈ m.held | s.keyAtLevel i < key}.ncard = i := by
  have ascending := holds.wf.ascending
  have better : {key ∈ m.held | s.keyAtLevel i < key} = (keyAt s.keys) '' (Finset.Ico (s.size - i) s.size : Set Nat) := by
    ext key
    rw [Set.mem_ofPred_eq, holds.mem_held, mem_keysHeld_iff, Set.mem_image, keyAtLevel]
    constructor
    · rintro ⟨⟨j, below, rfl⟩, above⟩
      refine ⟨j, Finset.mem_coe.mpr (Finset.mem_Ico.mpr ⟨?_, below⟩), rfl⟩
      by_contra early
      rcases Nat.lt_or_eq_of_le (show j ≤ s.size - 1 - i by omega) with before | rfl
      · exact UInt32.lt_asymm above (ascending j _ before (by omega))
      · exact UInt32.lt_irrefl _ above
    · rintro ⟨j, member, rfl⟩
      obtain ⟨after, below⟩ := Finset.mem_Ico.mp (Finset.mem_coe.mp member)
      exact ⟨⟨j, below, rfl⟩, ascending _ j (by omega) below⟩
  have injective : Set.InjOn (keyAt s.keys) (Finset.Ico (s.size - i) s.size : Set Nat) := by
    intro a left b right same
    obtain ⟨-, left⟩ := Finset.mem_Ico.mp (Finset.mem_coe.mp left)
    obtain ⟨-, right⟩ := Finset.mem_Ico.mp (Finset.mem_coe.mp right)
    rcases Nat.lt_trichotomy a b with before | same' | after
    · exact absurd same (UInt32.ne_of_lt (ascending a b before right))
    · exact same'
    · exact absurd same.symm (UInt32.ne_of_lt (ascending b a after left))
  rw [better, injective.ncard_image, Set.ncard_coe_finset, Nat.card_Ico]
  omega

theorem Holds.describes (holds : s.Holds m) : s.Describes m where
  fits := holds.wf.fits
  keys := holds.wf.keys
  qty := holds.wf.qty
  orders := holds.wf.orders
  ascending := holds.wf.ascending
  level i inside := holds.level inside
  complete key member := mem_keysHeld_iff.mp (holds.mem_held.mp member)
  ranked i inside := by
    obtain ⟨l, here, -, qty, orders⟩ := holds.level (show s.size - 1 - i < s.size by omega)
    exact ⟨holds.ranked inside, l, here, qty, orders⟩

/-- A touched level is the best one before or after if no other is better. -/
theorem Touch.isEmpty_iff {key : UInt32} {before after : Option Level} {low high : List Level}
    (touch : s.Touch t key before after low high) (holds : s.Holds m) (holds' : t.Holds m')
    (here : key ∈ m.held ∨ key ∈ m'.held) : high.isEmpty = true ↔ m.IsBest key ∨ m'.IsBest key := by
  have old : s.keysHeld = (low ++ before.toList ++ high).map Level.key := congrArg _ touch.old
  have new : t.keysHeld = (low ++ after.toList ++ high).map Level.key := congrArg _ touch.new
  constructor
  · intro none
    obtain rfl := List.isEmpty_iff.mp none
    -- all other keys are below
    have best : ∀ (v : Option Level) (n : LevelMap) (u : LevelSide), u.Holds n → (∀ l, v = some l → l.key = key) →
        u.keysHeld = (low ++ v.toList ++ []).map Level.key → key ∈ n.held → n.IsBest key := by
      intro v n u held named keys member
      refine ⟨member, fun other among => ?_⟩
      rw [held.mem_held, keys, List.append_nil] at among
      obtain ⟨l, inside, rfl⟩ := List.mem_map.mp among
      rcases List.mem_append.mp inside with lower | same
      · exact UInt32.le_of_lt (touch.below l lower)
      · rw [named l (Option.mem_toList.mp same)]
        exact UInt32.le_refl _
    exact here.imp (best before m s holds touch.oldKey old) (best after m' t holds' touch.newKey new)
  · intro best
    by_contra some
    obtain ⟨l, member⟩ := List.exists_mem_of_ne_nil high fun none => some (List.isEmpty_iff.mpr none)
    have above := touch.above l member
    have among : ∀ {keys : List UInt32} {v : Option Level}, keys = (low ++ v.toList ++ high).map Level.key → l.key ∈ keys := by
      rintro keys v rfl
      exact List.mem_map_of_mem (List.mem_append_right _ member)
    rcases best with best | best
    · exact UInt32.not_le.mpr above (best.2 _ (holds.mem_held.mpr (among old)))
    · exact UInt32.not_le.mpr above (best.2 _ (holds'.mem_held.mpr (among new)))

end LevelSide

end Itch
