import Itch.BookSession
import Itch.EngineMoves
import Itch.Records

namespace Itch

/-- The reference and price of the order that a call adds. -/
def EngineCall.given : EngineCall → Option (UInt64 × UInt32)
  | .add _ ref _ _ price => some (ref, price)
  | .reduce _ _ => none
  | .remove _ => none
  | .replace _ newRef _ price => some (newRef, price)

/-- A session so far: the live orders and all references that were given. -/
structure FeedSession where
  engine : NaiveEngine := {}
  used : List UInt64 := []

namespace FeedSession

def on (s : FeedSession) : Message → FeedSession
  | .book m => { engine := s.engine.apply m.call, used := (m.call.given.map Prod.fst).toList ++ s.used }
  | .stockDirectory _ => s
  | .systemEvent _ => s
  | .other _ => s

/-- The order is live, has the locate, and gives up at least one and at most all of its shares. -/
def Takes (s : FeedSession) (locate : UInt16) (ref : UInt64) (shares : Order → UInt32) : Prop :=
  ∃ o, s.engine.live.find? ref = some o ∧ o.locate = locate ∧ 1 ≤ shares o ∧ shares o ≤ o.shares

/-- New orders have new references, and all other messages take shares from live orders, a
delete or replace all that remain. -/
def Consistent (s : FeedSession) : Message → Prop
  | .book m =>
    match m.call with
    | .add _ ref _ _ _ => ref ∉ s.used
    | .reduce ref shares => s.Takes m.header.locate ref fun _ => shares
    | .remove ref => s.Takes m.header.locate ref Order.shares
    | .replace oldRef newRef _ _ => newRef ∉ s.used ∧ s.Takes m.header.locate oldRef Order.shares
  | .stockDirectory _ => True
  | .systemEvent _ => True
  | .other _ => True

/-- Whether the price of a new order is a multiple of 4, as multiples of 100 are even where
the arithmetic wraps. -/
def Ticked : Message → Prop
  | .book m => ∀ given, m.call.given = some given → given.2.toNat % 4 = 0
  | .stockDirectory _ => True
  | .systemEvent _ => True
  | .other _ => True

/-- The invariant of consistent sessions. -/
structure Sound (s : FeedSession) : Prop where
  known : ∀ o ∈ s.engine.live.entries, o.ref ∈ s.used
  ticked : ∀ o ∈ s.engine.live.entries, o.price.toNat % 4 = 0
  unknownRef : s.engine.unknownRef = 0
  overfill : s.engine.overfill = 0

end FeedSession

namespace NaiveEngine

/-! Calls on one of the live orders. -/

section Split

variable {n : NaiveEngine} {o : Order} {others : List Order} (split : n.live.entries.Perm (o :: others))
include split

theorem find_split : n.live.find? o.ref = some o :=
  KeyedList.find?_eq_some.mpr ⟨split.mem_iff.mpr List.mem_cons_self, rfl⟩

theorem erase_split : (n.live.erase o.ref).entries.Perm others :=
  ((KeyedList.entries_perm (find_split split)).symm.trans split).cons_inv

theorem apply_remove : (n.apply (.remove o.ref)).live.entries.Perm others := by
  rw [apply, onLive, find_split split]
  exact erase_split split

/-- An order that gives up some of its shares keeps the others, or goes. -/
theorem apply_reduce {shares : UInt32} (some : shares ≠ 0) (le : shares ≤ o.shares) :
    (n.apply (.reduce o.ref shares)).live.entries.Perm (BookEngine.remainder o (o.shares - shares) ++ others) := by
  rw [apply, onLive, find_split split]
  dsimp only
  rw [overfilled, if_neg (UInt32.not_lt.mpr le), UInt32.min_def, if_pos le, take, if_neg some, BookEngine.remainder]
  split
  · exact erase_split split
  · exact (erase_split split).cons _

theorem apply_replace {newRef : UInt64} (fresh : n.live.find? newRef = none) (shares price : UInt32) :
    (n.apply (.replace o.ref newRef shares price)).live.entries.Perm ({ o with ref := newRef, shares, price } :: others) := by
  rw [apply, onLive, find_split split]
  have absent : (n.live.erase o.ref).find? newRef = none := KeyedList.find?_erase fun _ => fresh
  exact (List.Perm.of_eq (@KeyedList.insert_entries _ _ _ _ _ { o with ref := newRef, shares, price } absent)).trans
    ((erase_split split).cons _)

end Split

end NaiveEngine

/-- Where the live orders after a call come from. -/
theorem NaiveEngine.mem_apply {n : NaiveEngine} {c : EngineCall} {o : Order} (member : o ∈ (n.apply c).live.entries) :
    (∃ old ∈ n.live.entries, o.ref = old.ref ∧ o.price = old.price) ∨ c.given = some (o.ref, o.price) := by
  have erased : ∀ ref, ∀ o ∈ (n.live.erase ref).entries, ∃ old ∈ n.live.entries, o.ref = old.ref ∧ o.price = old.price :=
    fun ref o member => ⟨o, (List.mem_filter.mp member).1, rfl, rfl⟩
  cases c with
  | add locate ref side shares price =>
    rcases List.mem_cons.mp member with rfl | old
    · exact .inr rfl
    · exact .inl (erased ref o old)
  | reduce ref shares =>
    refine .inl ?_
    rw [apply, onLive] at member
    cases found : n.live.find? ref with
    | none =>
      rw [found] at member
      exact ⟨o, member, rfl, rfl⟩
    | some old =>
      rw [found] at member
      dsimp only at member
      have live := n.overfilled_live old shares
      generalize n.overfilled old shares = m at *
      rw [take] at member
      split at member
      · exact ⟨o, live ▸ member, rfl, rfl⟩
      · split at member
        · exact erased old.ref o (live ▸ member)
        · rcases List.mem_cons.mp member with rfl | other
          · exact ⟨old, (KeyedList.find?_eq_some.mp found).1, rfl, rfl⟩
          · exact erased old.ref o (live ▸ other)
  | remove ref =>
    refine .inl ?_
    rw [apply, onLive] at member
    cases found : n.live.find? ref with
    | none =>
      rw [found] at member
      exact ⟨o, member, rfl, rfl⟩
    | some old =>
      rw [found] at member
      exact erased ref o member
  | replace oldRef newRef shares price =>
    rw [apply, onLive] at member
    cases found : n.live.find? oldRef with
    | none =>
      rw [found] at member
      exact .inl ⟨o, member, rfl, rfl⟩
    | some old =>
      rw [found] at member
      rcases List.mem_cons.mp member with rfl | other
      · exact .inr rfl
      · exact .inl (erased oldRef o (List.mem_filter.mp other).1)

namespace FeedSession

variable {s : FeedSession} {m : Message}

theorem Sound.fresh_ref (sound : s.Sound) {ref : UInt64} (unused : ref ∉ s.used) : s.engine.live.find? ref = none :=
  KeyedList.find?_eq_none.mpr fun o member same => unused (same ▸ sound.known o member)

/-- A consistent message is one that the abstract engine allows. -/
theorem Sound.fresh (sound : s.Sound) (consistent : s.Consistent m) : s.engine.Fresh m := by
  cases m with
  | book m =>
    rw [Consistent] at consistent
    rw [NaiveEngine.Fresh]
    cases called : m.call with
    | add locate ref side shares price =>
      rw [called] at consistent
      exact sound.fresh_ref consistent
    | reduce ref shares => exact trivial
    | remove ref => exact trivial
    | replace oldRef newRef shares price =>
      rw [called] at consistent
      exact fun _ _ => sound.fresh_ref consistent.1
  | stockDirectory m => exact trivial
  | systemEvent m => exact trivial
  | other p => exact trivial

/-- A consistent message counts as no error. -/
theorem Consistent.counts (consistent : s.Consistent m) :
    (s.on m).engine.unknownRef = s.engine.unknownRef ∧ (s.on m).engine.overfill = s.engine.overfill := by
  cases m with
  | book m =>
    rw [Consistent] at consistent
    rw [on]
    cases called : m.call with
    | add locate ref side shares price => exact ⟨rfl, rfl⟩
    | reduce ref shares =>
      rw [called] at consistent
      obtain ⟨o, live, -, -, le⟩ := consistent
      dsimp only
      rw [NaiveEngine.apply, NaiveEngine.onLive, live]
      dsimp only
      rw [NaiveEngine.overfilled, if_neg (UInt32.not_lt.mpr le), NaiveEngine.take]
      split
      · exact ⟨rfl, rfl⟩
      · split
        · exact ⟨rfl, rfl⟩
        · exact ⟨rfl, rfl⟩
    | remove ref =>
      rw [called] at consistent
      obtain ⟨o, live, -⟩ := consistent
      dsimp only
      rw [NaiveEngine.apply, NaiveEngine.onLive, live]
      exact ⟨rfl, rfl⟩
    | replace oldRef newRef shares price =>
      rw [called] at consistent
      obtain ⟨-, o, live, -⟩ := consistent
      dsimp only
      rw [NaiveEngine.apply, NaiveEngine.onLive, live]
      exact ⟨rfl, rfl⟩
  | stockDirectory m => exact ⟨rfl, rfl⟩
  | systemEvent m => exact ⟨rfl, rfl⟩
  | other p => exact ⟨rfl, rfl⟩

theorem on_engine (s : FeedSession) (m : Message) : (s.on m).engine = s.engine.on m := by
  cases m with
  | book m => rfl
  | stockDirectory m => rfl
  | systemEvent m => rfl
  | other p => rfl

theorem Sound.on (sound : s.Sound) (consistent : s.Consistent m) (ticked : Ticked m) : (s.on m).Sound := by
  obtain ⟨unknownRef, overfill⟩ := consistent.counts
  refine ⟨?_, ?_, unknownRef.trans sound.unknownRef, overfill.trans sound.overfill⟩
  · cases m with
    | book m =>
      intro o member
      refine List.mem_append.mpr ?_
      rcases NaiveEngine.mem_apply member with ⟨old, kept, ref, -⟩ | given
      · exact .inr (ref ▸ sound.known old kept)
      · rw [given]
        exact .inl List.mem_cons_self
    | stockDirectory m => exact sound.known
    | systemEvent m => exact sound.known
    | other p => exact sound.known
  · cases m with
    | book m =>
      intro o member
      rcases NaiveEngine.mem_apply member with ⟨old, kept, -, price⟩ | given
      · exact price ▸ sound.ticked old kept
      · exact ticked _ given
    | stockDirectory m => exact sound.ticked
    | systemEvent m => exact sound.ticked
    | other p => exact sound.ticked

theorem empty_sound : Sound {} := ⟨nofun, nofun, rfl, rfl⟩

/-- A multiple of 4 among the prices leaves a residue for the keys of a side. -/
theorem key_residue {o : Order} (price : o.price.toNat % 4 = 0) : o.key.toNat % 4 = if o.bid then 0 else 3 := by
  have below := o.price.toNat_lt
  rw [Order.key, OrderBook.keyFor, Order.bid]
  by_cases buy : o.side = ascii 'B'
  · simpa [buy] using price
  · simp only [buy, if_false, decide_false, Bool.false_eq_true, UInt32.toNat_not]
    change (2 ^ 32 - 1 - o.price.toNat) % 4 = 3
    omega

/-- There are 2 ^ 30 keys of one residue. -/
theorem length_of_residue {keys : List UInt32} (distinct : keys.Nodup) {r : Nat} (residue : ∀ key ∈ keys, key.toNat % 4 = r) :
    keys.length ≤ 2 ^ 30 := by
  have apart : (keys.map fun key => key.toNat / 4).Nodup := by
    refine List.Nodup.map_on ?_ distinct
    intro a left b right same
    have first := residue a left
    have second := residue b right
    exact UInt32.toNat_inj.mp (by omega)
  have inside : (keys.map fun key => key.toNat / 4) ⊆ List.range (2 ^ 30) := by
    intro i member
    obtain ⟨key, -, rfl⟩ := List.mem_map.mp member
    have below := key.toNat_lt
    exact List.mem_range.mpr (by omega)
  have few := (apart.subperm inside).length_le
  rwa [List.length_map, List.length_range] at few

/-- Every side has room for that many prices. -/
theorem fitLevels_of_ticked {live : List Order} (ticked : ∀ o ∈ live, o.price.toNat % 4 = 0) : FitLevels live := by
  intro o _
  refine (length_of_residue (List.nodup_dedup _) (r := if o.bid then 0 else 3) fun key member => ?_).trans (by decide)
  obtain ⟨q, resting, rfl⟩ := List.mem_map.mp (List.mem_dedup.mp member)
  obtain ⟨inside, -, side⟩ : q ∈ live ∧ q.locate = o.locate ∧ q.bid = o.bid := by simpa using resting
  rw [← side]
  exact key_residue (ticked q inside)

end FeedSession

end Itch
