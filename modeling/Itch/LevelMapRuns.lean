import Itch.FullSide
import Itch.LevelMap

namespace Itch

namespace LevelSide

variable {search : LevelSearch} {s t : LevelSide} {m m' : LevelMap}

/-- A level as the arrays keep its numbers. -/
def stored (key : UInt32) (l : LevelTotal) : Level := ⟨key, UInt64.ofNat l.qty, UInt32.ofNat l.orders⟩

theorem stored_join (key shares : UInt32) (l : Option LevelTotal) :
    Level.join key shares (l.map (stored key)) = stored key (.join shares l) := by
  cases l with
  | none => simp [Level.join, stored, LevelTotal.join]
  | some l =>
    simp [Level.join, stored, LevelTotal.join]

theorem stored_leave {key shares : UInt32} {gone : Bool} {l : LevelTotal} (bound : l.orders < 2 ^ 32)
    (enough : shares.toNat ≤ l.qty) (some : (if gone then 1 else 0) ≤ l.orders) :
    Level.leave key shares gone (stored key l) = (l.leave shares gone).map (stored key) := by
  have one : (if gone then (1 : UInt32) else 0) = UInt32.ofNat (if gone then 1 else 0) := by cases gone <;> rfl
  have qty : UInt64.ofNat l.qty - shares.toUInt64 = UInt64.ofNat (l.qty - shares.toNat) := by
    rw [UInt64.ofNat_sub enough, UInt64.ofNat_uInt32ToNat]
  have small : l.orders - (if gone then 1 else 0) < 2 ^ 32 := (Nat.sub_le ..).trans_lt bound
  rw [Level.leave, stored, LevelTotal.leave]
  dsimp only
  rw [one, ← UInt32.ofNat_sub some, qty]
  generalize l.orders - (if gone then 1 else 0) = orders at small
  have zero : UInt32.ofNat orders = 0 ↔ orders = 0 := by
    rw [← UInt32.toNat_inj, UInt32.toNat_ofNat', Nat.mod_eq_of_lt small]
    rfl
  by_cases last : orders = 0
  · rw [if_pos last, if_pos (zero.mpr last)]
    rfl
  · rw [if_neg last, if_neg (mt zero.mp last)]
    rfl

/-- A step at one key. -/
theorem Touch.holds {key : UInt32} {before after : Option Level} {low high : List Level} {l : Option LevelTotal}
    (touch : s.Touch t key before after low high) (holds : s.Holds m) (wf : t.WF) (new : after = l.map (stored key))
    (counts : ∀ total, l = some total → 1 ≤ total.orders ∧ total.orders < 2 ^ 32) : t.Holds (Function.update m key l) where
  wf := wf
  lookup other := by
    by_cases here : other = key
    · subst here
      rw [touch.lookup_new, Function.update_self, new]
      rfl
    · rw [touch.lookup_other here, Function.update_of_ne here]
      exact holds.lookup other
  counts other total found := by
    by_cases here : other = key
    · subst here
      rw [Function.update_self] at found
      exact counts total found
    · rw [Function.update_of_ne here] at found
      exact holds.counts other total found

theorem Holds.add (holds : s.Holds m) {key shares : UInt32} (legal : m.Legal (.add key shares))
    (room : m.Room (.add key shares)) :
    (s.add search key shares).1.Holds (m.apply (.add key shares)) ∧ s.Answers search m (.add key shares) := by
  have held : s.lookup key = (m key).map (stored key) := holds.lookup key
  have space : s.size < 2 ^ 31 ∨ s.lookup key ≠ none := by
    rcases room with present | few
    · exact .inr (mem_keysHeld.mp (holds.mem_held.mp present))
    · rw [holds.ncard_held] at few
      exact .inl few
  obtain ⟨kept, low, high, touch, top⟩ := add_spec search holds.wf key shares space
  have after : (s.add search key shares).1.Holds (m.apply (.add key shares)) := by
    refine touch.holds holds kept (l := some (LevelTotal.join shares (m key))) ?_ ?_
    · rw [held, stored_join]
      rfl
    · rintro total ⟨⟩
      cases here : m key with
      | none => exact ⟨le_rfl, show 1 < 2 ^ 32 by decide⟩
      | some l => exact ⟨Nat.le_add_left 1 _, legal l here⟩
  refine ⟨after, ?_⟩
  have present : key ∈ (m.apply (.add key shares)).held := LevelMap.mem_held (Function.update_self ..)
  rw [Answers, top]
  exact touch.isEmpty_iff holds after (.inr present)

theorem Holds.reduce (holds : s.Holds m) {key shares : UInt32} {gone : Bool} (legal : m.Legal (.reduce key shares gone)) :
    (s.reduce search key shares gone).1.Holds (m.apply (.reduce key shares gone)) ∧
      s.Answers search m (.reduce key shares gone) := by
  have held : s.lookup key = (m key).map (stored key) := holds.lookup key
  rcases reduce_spec search holds.wf key shares gone with ⟨absent, missing⟩ | ⟨l, low, high, found, kept, touch, top⟩
  · rw [absent] at held
    have none : m key = none := Option.map_eq_none_iff.mp held.symm
    have same : m.apply (.reduce key shares gone) = m := by
      rw [LevelMap.apply, none]
      exact Function.update_eq_self_iff.mpr none.symm
    rw [missing, same]
    exact ⟨holds, fun _ => missing, fun present => absurd none present⟩
  · rw [found] at held
    obtain ⟨total, here, rfl⟩ := Option.map_eq_some_iff.mp held.symm
    obtain ⟨positive, bound⟩ := holds.counts key total here
    obtain ⟨enough, orders, -⟩ := legal total here
    have after : (s.reduce search key shares gone).1.Holds (m.apply (.reduce key shares gone)) := by
      rw [LevelMap.apply, here]
      exact touch.holds holds kept (stored_leave bound enough orders) fun left found => LevelTotal.leave_orders bound found
    have present := LevelMap.mem_held here
    refine ⟨after, fun absent => absurd present absent, fun _ => ?_⟩
    rw [← touch.isEmpty_iff holds after (.inl present), top]
    split
    · rename_i none
      refine ⟨fun missing => ?_, fun _ => none, fun _ => rfl⟩
      cases missing
    · rename_i some
      refine ⟨fun missing => ?_, fun changed => ?_, fun none => absurd none some⟩
      · cases missing
      · cases changed

theorem holds_run {calls : List SideCall} (legal : LevelMap.LegalAll calls) (room : LevelMap.RoomAll calls) :
    (run search calls).Holds (LevelMap.run calls) := by
  refine @Runs.Every.simulates _ _ _ _ _ _ (fun m s => Holds s m) ?_ _ _ _ empty_holds (legal.and room)
  rintro m s c holds ⟨legal, room⟩
  cases c with
  | add key shares => exact (holds.add legal room).1
  | reduce key shares gone => exact (holds.reduce legal).1

/-- In a run that opens no level on a side with 2 ^ 31 of them, the arrays describe the map
that the calls make, and every call answers for it. -/
theorem ordered_map (search : LevelSearch) {calls : List SideCall} (legal : LevelMap.LegalAll calls)
    (room : LevelMap.RoomAll calls) :
    (run search calls).Describes (LevelMap.run calls) ∧
      ∀ c, (LevelMap.run calls).Legal c → (LevelMap.run calls).Room c →
        (run search calls).Answers search (LevelMap.run calls) c := by
  have holds := @holds_run search _ legal room
  refine ⟨holds.describes, fun c legal room => ?_⟩
  cases c with
  | add key shares => exact (holds.add legal room).2
  | reduce key shares gone => exact (holds.reduce legal).2

theorem ordered_map_sample :
    (run (SimdLevel.avx2.search 4) [.add 5 10, .add 5 1, .reduce 5 10 true, .reduce 9 1 false]).Describes
      (LevelMap.run [.add 5 10, .add 5 1, .reduce 5 10 true, .reduce 9 1 false]) := by
  refine (ordered_map (SimdLevel.avx2.search 4) ?_ ?_).1
  · simp [LevelMap.LegalAll, Runs.Every, LevelMap.Legal, LevelMap.apply, LevelMap.empty, LevelTotal.join]
  · simp [LevelMap.RoomAll, Runs.Every, LevelMap.Room, LevelMap.apply, LevelMap.empty, LevelMap.held]

end LevelSide

/-- One order at each of the keys 1 to `n`. -/
def ascendingAdds (n : Nat) : List SideCall := (List.range n).map fun i => .add (UInt32.ofNat (i + 1)) 1

namespace LevelMap

theorem held_add (m : LevelMap) (key shares : UInt32) : (m.apply (.add key shares)).held = insert key m.held := by
  ext other
  rw [Set.mem_insert_iff, held, held, Set.mem_ofPred_eq, Set.mem_ofPred_eq, apply]
  by_cases here : other = key
  · rw [here, Function.update_self]
    exact ⟨fun _ => .inl rfl, fun _ => Option.some_ne_none _⟩
  · rw [Function.update_of_ne here]
    exact ⟨.inr, fun either => either.resolve_left here⟩

theorem run_ascendingAdds (n : Nat) :
    run (ascendingAdds (n + 1)) = (run (ascendingAdds n)).apply (.add (UInt32.ofNat (n + 1)) 1) := by
  rw [ascendingAdds, List.range_succ, List.map_append, run, List.foldl_append]
  rfl

theorem held_ascendingAdds (n : Nat) :
    (run (ascendingAdds n)).held = (fun i => UInt32.ofNat (i + 1)) '' (Finset.range n : Set Nat) := by
  induction n with
  | zero =>
    rw [Finset.range_zero, Finset.coe_empty, Set.image_empty]
    exact Set.eq_empty_of_forall_notMem fun key member => member rfl
  | succ n ih => rw [run_ascendingAdds, held_add, ih, Finset.range_add_one, Finset.coe_insert, Set.image_insert_eq]

theorem ncard_ascendingAdds {n : Nat} (below : n < 2 ^ 32) : (run (ascendingAdds n)).held.ncard = n := by
  have injective : Set.InjOn (fun i => UInt32.ofNat (i + 1)) (Finset.range n : Set Nat) := by
    intro i left j right same
    have left := Finset.mem_range.mp (Finset.mem_coe.mp left)
    have right := Finset.mem_range.mp (Finset.mem_coe.mp right)
    have numbers := congrArg UInt32.toNat same
    rw [UInt32.toNat_ofNat', UInt32.toNat_ofNat'] at numbers
    omega
  rw [held_ascendingAdds, injective.ncard_image, Set.ncard_coe_finset, Finset.card_range]

/-- The keys beyond `n` are free. -/
theorem free_ascendingAdds {n k : Nat} (below : n < 2 ^ 32) (small : k < 2 ^ 32) (free : k = 0 ∨ n < k) :
    UInt32.ofNat k ∉ (run (ascendingAdds n)).held := by
  rw [held_ascendingAdds]
  rintro ⟨i, member, same⟩
  have inside := Finset.mem_range.mp (Finset.mem_coe.mp member)
  have numbers := congrArg UInt32.toNat same
  rw [UInt32.toNat_ofNat', UInt32.toNat_ofNat'] at numbers
  omega

theorem ascendingAdds_legal {n : Nat} (below : n < 2 ^ 32) : LegalAll (ascendingAdds n) := by
  induction n with
  | zero => exact trivial
  | succ n ih =>
    rw [LegalAll, ascendingAdds, List.range_succ, List.map_append]
    refine Runs.every_append.mpr ⟨ih (Nat.lt_of_succ_lt below), fun l found => ?_⟩
    have free := free_ascendingAdds (n := n) (k := n + 1) (by omega) below (.inr n.lt_succ_self)
    exact absurd (mem_held found) free

theorem ascendingAdds_room {n : Nat} (below : n ≤ 2 ^ 31) : RoomAll (ascendingAdds n) := by
  induction n with
  | zero => exact trivial
  | succ n ih =>
    rw [RoomAll, ascendingAdds, List.range_succ, List.map_append]
    refine Runs.every_append.mpr ⟨ih (Nat.le_of_succ_le below), .inr ?_⟩
    exact (ncard_ascendingAdds (n := n) (by omega)).trans_lt below

end LevelMap

-- too long a run to unfold it
attribute [irreducible] ascendingAdds

namespace LevelSide

/-- One level more than 2 ^ 31 and the arrays are lost. -/
theorem overflow_run (search : LevelSearch) {n : Nat} (full : n = 2 ^ 31) :
    LevelMap.LegalAll (ascendingAdds n ++ [.add 0 1]) ∧
      ¬ (run search (ascendingAdds n ++ [.add 0 1])).Describes (LevelMap.run (ascendingAdds n ++ [.add 0 1])) := by
  have legal := LevelMap.ascendingAdds_legal (n := n) (by omega)
  have holds := @holds_run search _ legal (LevelMap.ascendingAdds_room (n := n) (by omega))
  have free : (0 : UInt32) ∉ (LevelMap.run (ascendingAdds n)).held :=
    LevelMap.free_ascendingAdds (n := n) (k := 0) (by omega) (by omega) (.inl rfl)
  refine ⟨Runs.every_append.mpr ⟨legal, fun l found => absurd (LevelMap.mem_held found) free⟩, fun describes => ?_⟩
  have size : (run search (ascendingAdds n)).size = 2 ^ 31 := by
    rw [← holds.ncard_held, LevelMap.ncard_ascendingAdds (by omega), full]
  have absent : (run search (ascendingAdds n)).lookup 0 = none := by
    rw [holds.lookup, not_not.mp free]
    rfl
  obtain ⟨lost, more, -⟩ := add_overflow search holds.wf 0 1 size absent
  have ascending := describes.ascending 0 1 Nat.zero_lt_one
  rw [run, List.foldl_append] at ascending
  change 1 < ((run search (ascendingAdds n)).add search 0 1).1.size →
    keyAt ((run search (ascendingAdds n)).add search 0 1).1.keys 0 <
      keyAt ((run search (ascendingAdds n)).add search 0 1).1.keys 1 at ascending
  rw [lost, more] at ascending
  exact UInt32.lt_irrefl 0 (ascending (by omega))

/-- Some run of legal calls makes arrays that describe no map. -/
theorem arrays_lost : ¬ ∀ (search : LevelSearch) (calls : List SideCall), LevelMap.LegalAll calls →
    (run search calls).Describes (LevelMap.run calls) := by
  intro always
  obtain ⟨legal, lost⟩ := overflow_run (SimdLevel.scalar.search 4) (n := 2 ^ 31) rfl
  exact lost (always _ _ legal)

end LevelSide

end Itch
