import Itch.CtrlGroupSwar
import Mathlib.Data.Nat.Log

namespace Itch

/-- A resting order. -/
structure Order where
  ref : UInt64 := 0
  price : UInt32 := 0
  shares : UInt32 := 0
  locate : UInt16 := 0
  side : UInt8 := 0
  deriving DecidableEq, Inhabited

/-- The table from order reference to resting order: a control byte for each slot
and the slots. Sizes are naturals: up to 2 ^ 57 groups nothing wraps. -/
structure BasicOrderMap where
  ctrl : List UInt8 := []
  slots : List Order := []
  capacity : Nat := 0
  groupMask : Nat := 0
  groupShift : Nat := 64
  size : Nat := 0
  tombstones : Nat := 0
  growthLeft : Nat := 0
  rehashes : Nat := 0
  grows : Nat := 0

namespace BasicOrderMap

def hash (ref : UInt64) : UInt64 := ref * 0x9E3779B97F4A7C15

def groupIndex (m : BasicOrderMap) (h : UInt64) : Nat := h.toNat >>> m.groupShift

def tag (m : BasicOrderMap) (h : UInt64) : UInt8 := UInt8.ofNat (h.toNat >>> (m.groupShift - 7) &&& 0x7F)

def maxLoad (cap : Nat) : Nat := cap - cap / 8

/-- The slot at `i`. Outside the table it is never looked at. -/
def slot (m : BasicOrderMap) (i : Nat) : Order := m.slots.getD i default

def ctrlAt (m : BasicOrderMap) (i : Nat) : UInt8 := m.ctrl.getD i kCtrlEmpty

/-- The order in slot `i` if the slot is full. -/
def live (m : BasicOrderMap) (i : Nat) : Option Order := if m.ctrlAt i < 0x80 then some (m.slot i) else none

/-- What `for_each` calls its argument with, in this order. -/
def orders (m : BasicOrderMap) : List Order := (List.range m.capacity).filterMap m.live

def clear (m : BasicOrderMap) : BasicOrderMap :=
  { m with ctrl := List.replicate m.capacity kCtrlEmpty, size := 0, tombstones := 0, growthLeft := maxLoad m.capacity }

/-- Writes a whole slot. -/
def write (m : BasicOrderMap) (i : Nat) (o : Order) : BasicOrderMap := { m with slots := m.slots.set i o }

section Group

variable (G : Group)

/-- The group of control bytes loaded for group index `g`. -/
def group (m : BasicOrderMap) (g : Nat) : List UInt8 := (m.ctrl.drop (g * G.width)).take G.width

/-- The number of groups for so many orders, in 64-bit arithmetic. -/
def groupsFor (orders : Nat) : Nat :=
  let slots := (orders + orders / 7 + 1) % 2 ^ 64
  let groups := 2 ^ Nat.clog 2 ((slots + G.width - 1) % 2 ^ 64 / G.width)
  if groups < 2 then 2 else groups

def allocate (m : BasicOrderMap) (groups : Nat) : BasicOrderMap :=
  clear { m with
    capacity := groups * G.width
    groupMask := groups - 1
    groupShift := 64 - BitScan.countrZero groups
    slots := List.replicate (groups * G.width) default }

/-- A new table. Its product is the source's for a `TableSize`. -/
def create (expectedOrders : Nat) : BasicOrderMap := allocate G {} (groupsFor G expectedOrders)

/-- The probe of `find` from group `g` on, of at most so many groups. -/
def findFrom (m : BasicOrderMap) (ref : UInt64) : Nat → Nat → Nat → Option (Option Nat)
  | 0, _, _ => none
  | fuel + 1, g, step =>
    let grp := m.group G g
    match (G.matchTag grp (m.tag (hash ref))).lanes.find? fun i => (m.slot (g * G.width + i)).ref = ref with
    | some i => some (some (g * G.width + i))
    | none =>
      if (G.matchEmpty grp).any then some none
      else m.findFrom ref fuel (g + step &&& m.groupMask) (step + 1)

/-- The slot of `ref`, if it is in the table. A probe of every group would go on forever. -/
def find (m : BasicOrderMap) (ref : UInt64) : Option (Option Nat) :=
  m.findFrom G ref (m.capacity / G.width) (m.groupIndex (hash ref)) 1

/-- The probe of `insert` for a slot to claim. -/
def freeFrom (m : BasicOrderMap) : Nat → Nat → Nat → Option Nat
  | 0, _, _ => none
  | fuel + 1, g, step =>
    let free := G.matchEmptyOrDeleted (m.group G g)
    if free.any then some (g * G.width + free.lowest)
    else m.freeFrom fuel (g + step &&& m.groupMask) (step + 1)

def claim (m : BasicOrderMap) (ref : UInt64) (i : Nat) : BasicOrderMap :=
  let m := if m.ctrlAt i = kCtrlEmpty then { m with growthLeft := m.growthLeft - 1 }
    else { m with tombstones := m.tombstones - 1 }
  { m with ctrl := m.ctrl.set i (m.tag (hash ref)), size := m.size + 1,
           slots := m.slots.set i { m.slot i with ref := ref } }

/-- `insert` after its check of the load budget. -/
def place (m : BasicOrderMap) (ref : UInt64) : Option (BasicOrderMap × Nat) :=
  (m.freeFrom G (m.capacity / G.width) (m.groupIndex (hash ref)) 1).map fun i => (m.claim ref i, i)

/-- One round of the loop of a rehash: slot `i` of the old table goes into the fresh one. -/
def move (insert : BasicOrderMap → UInt64 → Option (BasicOrderMap × Nat)) (m fresh : BasicOrderMap) (i : Nat) :
    Option BasicOrderMap :=
  if m.ctrlAt i < 0x80 then (insert fresh (m.slot i).ref).map fun (fresh, j) => fresh.write j (m.slot i)
  else some fresh

/-- Moves the live orders into a fresh allocation, through `insert`. -/
def rehashForInsert (insert : BasicOrderMap → UInt64 → Option (BasicOrderMap × Nat)) (m : BasicOrderMap) :
    Option BasicOrderMap :=
  let groups := m.capacity / G.width
  let grow := m.size * 2 > maxLoad m.capacity
  ((List.range m.capacity).foldlM (move insert m) (m.allocate G (if grow then groups * 2 else groups))).map fun fresh =>
    { fresh with rehashes := fresh.rehashes + 1, grows := if grow then fresh.grows + 1 else fresh.grows }

/-- `insert`, `depth` being how many rehashes may nest. -/
def insertWithin : Nat → BasicOrderMap → UInt64 → Option (BasicOrderMap × Nat)
  | depth, m, ref =>
    if m.growthLeft = 0 then
      match depth with
      | 0 => none
      | depth + 1 => (m.rehashForInsert G (insertWithin depth)).bind fun m => m.place G ref
    else m.place G ref

/-- Claims a slot for `ref`. The inserts of a rehash do not rehash again. -/
def insert (m : BasicOrderMap) (ref : UInt64) : Option (BasicOrderMap × Nat) := m.insertWithin G 1 ref

def erase (m : BasicOrderMap) (i : Nat) : BasicOrderMap :=
  let m' := if (G.matchEmpty (m.group G (i / G.width))).any then
      { m with ctrl := m.ctrl.set i kCtrlEmpty, growthLeft := m.growthLeft + 1 }
    else { m with ctrl := m.ctrl.set i kCtrlDeleted, tombstones := m.tombstones + 1 }
  { m' with size := m'.size - 1 }

end Group

end BasicOrderMap

/-- A `size_t` number of expected orders whose table has fewer than 2 ^ 64 slots. For others the
product in `allocate` wraps, and the source has no table to look into. -/
structure TableSize (G : Group) where
  orders : Nat
  word : orders < 2 ^ 64
  fits : BasicOrderMap.groupsFor G orders * G.width < 2 ^ 64

instance {G : Group} : CoeOut (TableSize G) Nat := ⟨TableSize.orders⟩

end Itch
