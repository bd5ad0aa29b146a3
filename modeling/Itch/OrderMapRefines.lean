import Itch.Lib.KeyedList
import Itch.OrderMapInsert

namespace Itch

/-- What the order map stands for: the live orders by reference. -/
abbrev LiveOrders := KeyedList Order.ref

/-- A call on the map. `insert` and `write` fill in the fields as the caller does
through the pointer it gets, `erase` erases the slot `find` gives. -/
inductive MapCall where
  | insert (o : Order)
  | write (o : Order)
  | erase (ref : UInt64)
  | find (ref : UInt64)
  | forEach
  | clear

namespace MapCall

/-- What the caller has to keep: only absent references are inserted, only live ones written or erased. -/
def Allowed (live : LiveOrders) : MapCall → Prop
  | insert o => live.find? o.ref = none
  | write o => live.find? o.ref ≠ none
  | erase ref => live.find? ref ≠ none
  | find _ => True
  | forEach => True
  | clear => True

/-- The call on the finite map. -/
def meaning (live : LiveOrders) : MapCall → LiveOrders
  | insert o => live.insert o
  | write o => live.insert o
  | erase ref => live.erase ref
  | find _ => live
  | forEach => live
  | clear => .empty

def AllowedFrom : LiveOrders → List MapCall → Prop
  | _, [] => True
  | live, call :: calls => call.Allowed live ∧ AllowedFrom (call.meaning live) calls

instance (live : LiveOrders) : (c : MapCall) → Decidable (c.Allowed live)
  | insert o => inferInstanceAs (Decidable (live.find? o.ref = none))
  | write o => inferInstanceAs (Decidable (live.find? o.ref ≠ none))
  | erase ref => inferInstanceAs (Decidable (live.find? ref ≠ none))
  | find _ => isTrue trivial
  | forEach => isTrue trivial
  | clear => isTrue trivial

end MapCall

namespace BasicOrderMap

section Calls

variable (G : Group)

/-- A call on the table. Writing or erasing through a null pointer has no result. -/
def call (m : BasicOrderMap) : MapCall → Option BasicOrderMap
  | .insert o => (m.insert G o.ref).map fun (m, i) => m.write i o
  | .write o => (m.find G o.ref).bind fun found => found.map fun i => m.write i o
  | .erase ref => (m.find G ref).bind fun found => found.map fun i => m.erase G i
  | .find ref => (m.find G ref).map fun _ => m
  | .forEach => some m
  | .clear => some m.clear

def calls (m : BasicOrderMap) (run : List MapCall) : Option BasicOrderMap := run.foldlM (call G) m

end Calls

variable {G : Group} {m : BasicOrderMap} {live : LiveOrders}

/-- The table behaves as the finite map: lookups give the slot of the live order
and nothing else, the size counts the live orders and a walk visits each once. -/
structure Represents (G : Group) (m : BasicOrderMap) (live : LiveOrders) : Prop where
  find : ∀ ref, ∃ found, m.find G ref = some found ∧ live.find? ref = found.map m.slot ∧
    ∀ i, found = some i → m.live i = some (m.slot i)
  size : m.size = live.entries.length
  forEach : m.orders.Perm live.entries

/-- The invariant behind `Represents`. -/
def Refines (G : Group) (m : BasicOrderMap) (live : LiveOrders) : Prop :=
  (∃ k, m.WF G k) ∧ m.orders.Perm live.entries

theorem mem_orders {k : Nat} (wf : m.WF G k) {o : Order} : o ∈ m.orders ↔ ∃ i, m.live i = some o := by
  constructor
  · intro member
    obtain ⟨i, -, alive⟩ := SlotTable.mem_contents.mp member
    exact ⟨i, alive⟩
  · rintro ⟨i, alive⟩
    exact SlotTable.mem_contents.mpr ⟨i, wf.live_lt alive, alive⟩

theorem Refines.lookup (refines : m.Refines G live) (ref : UInt64) :
    ∃ found, m.find G ref = some found ∧ live.find? ref = found.map m.slot ∧
      ∀ i, found = some i → m.live i = some (m.slot i) := by
  obtain ⟨⟨k, wf⟩, perm⟩ := refines
  obtain ⟨found, result, finds⟩ := find_spec wf ref
  refine ⟨found, result, ?_, ?_⟩
  · cases found with
    | none =>
      refine KeyedList.find?_eq_none.mpr fun o member => ?_
      obtain ⟨i, alive⟩ := (mem_orders wf).mp (perm.mem_iff.mpr member)
      exact finds i o alive
    | some i =>
      obtain ⟨o, alive, same⟩ := finds
      rw [Option.map_some, (live_eq_some.mp alive).2]
      exact KeyedList.find?_eq_some.mpr ⟨perm.mem_iff.mp ((mem_orders wf).mpr ⟨i, alive⟩), same⟩
  · rintro i rfl
    obtain ⟨o, alive, -⟩ := finds
    rw [alive, (live_eq_some.mp alive).2]

theorem Refines.represents (refines : m.Refines G live) : m.Represents G live := by
  refine ⟨refines.lookup, ?_, refines.2⟩
  obtain ⟨⟨k, wf⟩, perm⟩ := refines
  rw [wf.size_eq, perm.length_eq]

/-- Looking up a live reference gives a full slot with its order. -/
theorem Refines.find_live (refines : m.Refines G live) {ref : UInt64} (present : live.find? ref ≠ none) :
    ∃ i, m.find G ref = some (some i) ∧ m.live i = some (m.slot i) ∧ live.find? ref = some (m.slot i) := by
  obtain ⟨found, result, same, alive⟩ := refines.lookup ref
  cases found with
  | none => exact absurd same present
  | some i => exact ⟨i, result, alive i rfl, same⟩

theorem Refines.call (refines : m.Refines G live) {c : MapCall} (allowed : c.Allowed live) :
    ∃ m', m.call G c = some m' ∧ m'.Refines G (c.meaning live) := by
  obtain ⟨⟨k, wf⟩, perm⟩ := refines
  cases c with
  | insert o =>
    obtain ⟨m', k', i, stale, inserted, wf', alive, same, held⟩ := insert_spec wf o.ref
    refine ⟨m'.write i o, by rw [BasicOrderMap.call, inserted]; rfl, ⟨k', (write_spec wf' alive same.symm).1⟩, ?_⟩
    have entries := KeyedList.insert_entries allowed
    rw [MapCall.meaning, entries]
    exact (orders_write wf' alive same.symm held).trans (perm.cons o)
  | write o =>
    obtain ⟨i, found, alive, same⟩ := Refines.find_live ⟨⟨k, wf⟩, perm⟩ allowed
    have ref := (KeyedList.find?_eq_some.mp same).2.symm
    refine ⟨m.write i o, by rw [BasicOrderMap.call, found]; rfl, ⟨k, (write_spec wf alive ref).1⟩, ?_⟩
    exact orders_write wf alive ref (perm.trans (KeyedList.entries_perm same))
  | erase ref =>
    obtain ⟨i, found, alive, same⟩ := Refines.find_live ⟨⟨k, wf⟩, perm⟩ allowed
    refine ⟨m.erase G i, by rw [BasicOrderMap.call, found]; rfl, ⟨k, (erase_spec wf alive).1⟩, ?_⟩
    exact ((orders_erase wf alive).symm.trans (perm.trans (KeyedList.entries_perm same))).cons_inv
  | find ref =>
    obtain ⟨found, result, -⟩ := find_spec wf ref
    exact ⟨m, by rw [BasicOrderMap.call, result]; rfl, ⟨k, wf⟩, perm⟩
  | forEach => exact ⟨m, rfl, ⟨k, wf⟩, perm⟩
  | clear =>
    obtain ⟨kept, none⟩ := clear_empties wf
    exact ⟨m.clear, rfl, ⟨k, kept⟩, by rw [none]; exact List.Perm.refl _⟩

theorem Refines.calls (refines : m.Refines G live) {run : List MapCall} (allowed : MapCall.AllowedFrom live run) :
    ∃ m', m.calls G run = some m' ∧ m'.Refines G (run.foldl (fun live c => c.meaning live) live) := by
  induction run generalizing m live with
  | nil => exact ⟨m, rfl, refines⟩
  | cons c run ih =>
    obtain ⟨m₁, first, kept⟩ := refines.call allowed.1
    obtain ⟨m₂, rest, result⟩ := ih kept allowed.2
    refine ⟨m₂, ?_, result⟩
    rw [BasicOrderMap.calls, List.foldlM_cons, first]
    exact rest

end BasicOrderMap

/-- The group types of the source. -/
inductive GroupType where
  | swar
  | sse2
  | avx2
  deriving DecidableEq

def GroupType.group : GroupType → Group
  | swar => groupSwar
  | sse2 => groupSse2
  | avx2 => groupAvx2

namespace BasicOrderMap

/-- Every run of allowed calls on a new table of any group type and size goes
through, and leaves a table that behaves as the finite map of the same calls. -/
theorem calls_represent (type : GroupType) (expectedOrders : Nat) {run : List MapCall}
    (allowed : MapCall.AllowedFrom .empty run) :
    ∃ m, (create type.group expectedOrders).calls type.group run = some m ∧
      m.Represents type.group (run.foldl (fun live c => c.meaning live) .empty) := by
  obtain ⟨k, wf, none⟩ := create_spec type.group expectedOrders
  have fresh : (create type.group expectedOrders).Refines type.group .empty := by
    refine ⟨⟨k, wf⟩, ?_⟩
    rw [none]
    exact List.Perm.refl _
  obtain ⟨m, result, refines⟩ := fresh.calls allowed
  exact ⟨m, result, refines.represents⟩

theorem calls_represent_sample :
    ∃ m, (create groupSwar 4).calls groupSwar [.insert { ref := 7, shares := 1 }, .write { ref := 7, shares := 2 },
        .erase 7, .insert { ref := 8 }] = some m ∧ m.size = 1 := by
  have allowed : MapCall.AllowedFrom .empty [.insert { ref := 7, shares := 1 }, .write { ref := 7, shares := 2 },
      .erase 7, .insert { ref := 8 }] :=
    ⟨by decide, by decide, by decide, by decide, trivial⟩
  obtain ⟨m, result, represents⟩ := calls_represent .swar 4 allowed
  exact ⟨m, result, represents.size⟩

end BasicOrderMap

end Itch
