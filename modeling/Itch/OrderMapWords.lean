import Itch.OrderMapLoops

namespace Itch

namespace BasicOrderMap

section Words

variable (G : Group) (m : BasicOrderMap)

/-- `allocate` with its product in 64-bit arithmetic, as the source has it. Where the
product wraps, the arrays are as short as it says. -/
def allocate64 (groups : Nat) : BasicOrderMap :=
  let capacity := groups * G.width % 2 ^ 64
  clear { m with
    capacity
    groupMask := groups - 1
    groupShift := 64 - BitScan.countrZero groups
    slots := List.replicate capacity default }

/-- A new table. -/
def create64 (expectedOrders : Nat) : BasicOrderMap := allocate64 G {} (groupsFor G expectedOrders)

/-- The table that a rehash fills, when it is past `j` slots of the old one. -/
def rehashed64 (j : Nat) : Option BasicOrderMap :=
  (List.range j).foldlM (move (insertWithin G 0) m) (m.allocate64 G (m.rehashGroups G))

def rehash64 : Option BasicOrderMap := (m.rehashed64 G m.capacity).map fun t => { t with
  rehashes := t.rehashes + 1, grows := if m.size * 2 > maxLoad m.capacity then t.grows + 1 else t.grows }

/-- `insert` up to its probe. -/
def budgeted64 : Option BasicOrderMap := if m.growthLeft = 0 then m.rehash64 G else some m

def insert64 (ref : UInt64) : Option (BasicOrderMap × Nat) := (m.budgeted64 G).bind fun t => t.place G ref

/-- Whether `insert` allocates no table of 2 ^ 64 slots. -/
def Fits : Prop := m.growthLeft = 0 → m.rehashGroups G * G.width < 2 ^ 64

end Words

variable {G : Group} {m : BasicOrderMap}

theorem allocate64_eq {groups : Nat} (fits : groups * G.width < 2 ^ 64) : m.allocate64 G groups = m.allocate G groups := by
  rw [allocate64, allocate, Nat.mod_eq_of_lt fits]

theorem rehashed64_eq (fits : m.rehashGroups G * G.width < 2 ^ 64) (j : Nat) : m.rehashed64 G j = m.rehashed G j := by
  rw [rehashed64, rehashed, allocate64_eq fits]

/-- Where no table wraps, the budget check is the one of `insert`. -/
theorem Fits.budgeted64_eq (fits : m.Fits G) :
    m.budgeted64 G = if m.growthLeft = 0 then m.rehashForInsert G (insertWithin G 0) else some m := by
  rw [budgeted64]
  split
  · rename_i spent
    rw [rehash64, rehashed64_eq (fits spent)]
    rfl
  · rfl

theorem Fits.insert64_eq (fits : m.Fits G) (ref : UInt64) : m.insert64 G ref = m.insert G ref := by
  rw [insert64, fits.budgeted64_eq, insert_eq]

/-- A table without slots, as `allocate64` makes one when its product is 2 ^ 64: there is
nothing that would end the loop of `find`. -/
theorem findLoop_lost (ctrl : m.ctrl = []) {ref : UInt64} {g step n : Nat} {r : Option Nat} :
    ¬ m.FindLoop groupAvx2 ref g step n r := by
  have group : ∀ g, m.group groupAvx2 g = [] := by
    intro g
    rw [BasicOrderMap.group, ctrl, List.drop_nil, List.take_nil]
  intro loop
  induction loop with
  | hit found =>
    rw [candidate, group] at found
    cases found
  | stop missed opened =>
    rw [group] at opened
    cases opened
  | next missed packed rest ih => exact ih

end BasicOrderMap

end Itch
