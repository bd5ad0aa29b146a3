import Itch.OrderMapRefines
import Itch.OrderMapWords

namespace Itch

/-- A table in which every probe ends: the map as its callers see it. -/
structure OrderMap (G : Group) where
  table : BasicOrderMap
  wf : ∃ k, table.WF G k

namespace OrderMap

variable {G : Group}

/-- A pointer into the map, to a live order. -/
def Pointer (m : OrderMap G) : Type := { i : Nat // (m.table.live i).isSome }

/-- A new map: the source's for a `TableSize`. -/
def create (G : Group) (expectedOrders : Nat) : OrderMap G where
  table := BasicOrderMap.create G expectedOrders
  wf := (BasicOrderMap.create_spec G expectedOrders).imp fun _ spec => spec.1

/-- The product of a `TableSize` does not wrap. -/
theorem create_table (orders : TableSize G) : (create G orders).table = BasicOrderMap.create64 G orders :=
  (BasicOrderMap.allocate64_eq orders.fits).symm

variable (m : OrderMap G)

/-- The live orders, in the order of `for_each`. -/
def orders : List Order := m.table.orders

def size : Nat := m.table.size

theorem size_eq : m.size = m.orders.length := m.wf.elim fun _ wf => wf.size_eq

variable {m} in
def Pointer.order (p : m.Pointer) : Order := m.table.slot p.1

theorem live_pointer (p : m.Pointer) : m.table.live p.1 = some p.order := by
  obtain ⟨o, alive⟩ := Option.isSome_iff_exists.mp p.2
  rw [alive, ← (BasicOrderMap.live_eq_some.mp alive).2]
  rfl

theorem find_exists (ref : UInt64) : ∃ r, m.table.find G ref = some r ∧ m.table.Finds ref r :=
  m.wf.elim fun _ wf => BasicOrderMap.find_spec wf ref

theorem find_pointer {ref : UInt64} {i : Nat} (found : m.table.find G ref = some (some i)) :
    (m.table.live i).isSome := by
  obtain ⟨r, result, finds⟩ := m.find_exists ref
  obtain rfl : some i = r := Option.some.inj (found.symm.trans result)
  obtain ⟨o, alive, -⟩ := finds
  rw [alive]
  rfl

/-- `find`, a null pointer being `none`. The probe always ends. -/
def find (ref : UInt64) : Option m.Pointer :=
  match found : m.table.find G ref with
  | some (some i) => some ⟨i, m.find_pointer found⟩
  | _ => none

theorem insert_exists (ref : UInt64) : ∃ r, m.table.insert G ref = some r ∧ (∃ k, r.1.WF G k) ∧
    (r.1.live r.2).isSome := by
  obtain ⟨_, wf⟩ := m.wf
  obtain ⟨m', k', i, o, inserted, wf', alive, -⟩ := BasicOrderMap.insert_spec wf ref
  refine ⟨(m', i), inserted, ⟨k', wf'⟩, ?_⟩
  rw [alive]
  rfl

/-- `insert`, which always finds a slot. -/
def insert (ref : UInt64) : (m' : OrderMap G) × m'.Pointer :=
  match inserted : m.table.insert G ref with
  | some (table, i) =>
    have spec : (∃ k, table.WF G k) ∧ (table.live i).isSome := by
      obtain ⟨r, result, kept⟩ := m.insert_exists ref
      obtain rfl : (table, i) = r := Option.some.inj (inserted.symm.trans result)
      exact kept
    ⟨⟨table, spec.1⟩, ⟨i, spec.2⟩⟩
  | none => absurd inserted (by obtain ⟨_, result, -⟩ := m.insert_exists ref; rw [result]; nofun)

variable {m} in
/-- Writes the fields of the order pointed to, all but its reference. -/
def Pointer.write (p : m.Pointer) (fields : Order → Order) (keeps : ∀ o, (fields o).ref = o.ref) :
    (m' : OrderMap G) × m'.Pointer :=
  have written : ∀ k, m.table.WF G k → _ := fun _ wf => BasicOrderMap.write_spec wf (m.live_pointer p) (keeps p.order)
  ⟨⟨m.table.write p.1 (fields p.order), m.wf.imp fun k wf => (written k wf).1⟩,
    ⟨p.1, m.wf.elim fun k wf => by rw [(written k wf).2, Function.update_self]; rfl⟩⟩

variable {m} in
def Pointer.erase (p : m.Pointer) : OrderMap G where
  table := m.table.erase G p.1
  wf := m.wf.imp fun _ wf => (BasicOrderMap.erase_spec wf (m.live_pointer p)).1

theorem create_orders (expectedOrders : Nat) : (create G expectedOrders).orders = [] :=
  (BasicOrderMap.create_spec G expectedOrders).elim fun _ spec => spec.2

theorem pointer_mem (p : m.Pointer) : p.order ∈ m.orders :=
  m.wf.elim fun _ wf => (BasicOrderMap.mem_orders wf).mpr ⟨p.1, m.live_pointer p⟩

theorem find_some {ref : UInt64} {p : m.Pointer} (found : m.find ref = some p) : p.order.ref = ref := by
  unfold find at found
  split at found
  · rename_i i result
    obtain rfl := Option.some.inj found
    obtain ⟨r, same, finds⟩ := m.find_exists ref
    obtain rfl : some i = r := Option.some.inj (result.symm.trans same)
    obtain ⟨o, alive, ref⟩ := finds
    rw [← (BasicOrderMap.live_eq_some.mp alive).2] at ref
    exact ref
  · cases found

theorem find_none {ref : UInt64} (missing : m.find ref = none) : ∀ o ∈ m.orders, o.ref ≠ ref := by
  obtain ⟨r, result, finds⟩ := m.find_exists ref
  obtain ⟨k, wf⟩ := m.wf
  cases r with
  | some i =>
    unfold find at missing
    split at missing
    · cases missing
    · rename_i other
      exact absurd result (other i)
  | none =>
    intro o member
    obtain ⟨i, alive⟩ := (BasicOrderMap.mem_orders wf).mp member
    exact finds i o alive

theorem find_eq_none {ref : UInt64} (absent : ∀ o ∈ m.orders, o.ref ≠ ref) : m.find ref = none := by
  cases found : m.find ref with
  | none => rfl
  | some p => exact absurd (m.find_some found) (absent _ (pointer_mem m p))

theorem insert_table (ref : UInt64) :
    m.table.insert G ref = some ((m.insert ref).1.table, (m.insert ref).2.1) := by
  obtain ⟨r, result, -⟩ := m.insert_exists ref
  unfold insert
  split
  · rename_i inserted
    exact inserted
  · rename_i none
    rw [none] at result
    cases result

/-- An insert adds one order, of `ref`, and gives the pointer to it. -/
theorem insert_orders (ref : UInt64) :
    (m.insert ref).2.order.ref = ref ∧ (m.insert ref).1.orders.Perm ((m.insert ref).2.order :: m.orders) := by
  obtain ⟨k, wf⟩ := m.wf
  obtain ⟨m', k', i, o, inserted, wf', alive, same, held⟩ := BasicOrderMap.insert_spec wf ref
  rw [m.insert_table ref] at inserted
  obtain ⟨rfl, rfl⟩ := Prod.mk.inj (Option.some.inj inserted)
  have order : (m.insert ref).2.order = o := (BasicOrderMap.live_eq_some.mp alive).2
  rw [order]
  exact ⟨same, held⟩

section Pointed

variable {m} (p : m.Pointer)

theorem write_order (fields : Order → Order) (keeps : ∀ o, (fields o).ref = o.ref) :
    (p.write fields keeps).2.order = fields p.order := by
  obtain ⟨k, wf⟩ := m.wf
  have live := (BasicOrderMap.write_spec wf (m.live_pointer p) (keeps p.order)).2
  have here : (m.table.write p.1 (fields p.order)).live p.1 = some (fields p.order) := by
    rw [live, Function.update_self]
  exact (BasicOrderMap.live_eq_some.mp here).2

theorem write_orders (fields : Order → Order) (keeps : ∀ o, (fields o).ref = o.ref) {others : List Order}
    (before : m.orders.Perm (p.order :: others)) :
    (p.write fields keeps).1.orders.Perm (fields p.order :: others) :=
  m.wf.elim fun _ wf => BasicOrderMap.orders_write wf (m.live_pointer p) (keeps p.order) before

theorem erase_orders : m.orders.Perm (p.order :: p.erase.orders) :=
  m.wf.elim fun _ wf => BasicOrderMap.orders_erase wf (m.live_pointer p)

end Pointed

end OrderMap

end Itch
