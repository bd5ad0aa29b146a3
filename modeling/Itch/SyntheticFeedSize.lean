import Itch.SyntheticFeedRuns

namespace Itch

namespace SyntheticFeed

open Fallible

variable {ρ α β : Type} {x : Gen ρ α} {j k : Nat}

/-- A part of the generator only appends to the stream, at most `k` bytes, and does not fail
where they fit. -/
def Appends (k : Nat) (x : Gen ρ α) : Prop := ∀ f : SyntheticFeed ρ, f.out.length + k ≤ kMaxSize →
  Ends False x (fun _ g => f.out <+: g.out ∧ g.out.length ≤ f.out.length + k) f

theorem appends_pure (a : α) : Appends 0 (pure a : Gen ρ α) := fun _ _ => ⟨List.prefix_rfl, Nat.le_refl _⟩

theorem appends_get : Appends 0 (get : Gen ρ (SyntheticFeed ρ)) := fun _ _ => ⟨List.prefix_rfl, Nat.le_refl _⟩

theorem appends_draw (next : ρ → α × ρ) : Appends 0 (draw next) := fun _ _ => ⟨List.prefix_rfl, Nat.le_refl _⟩

theorem appends_takeRef : Appends 0 (takeRef : Gen ρ UInt64) := fun _ _ => ⟨List.prefix_rfl, Nat.le_refl _⟩

theorem appends_setLive (sym : Nat) (live : List Live) : Appends 0 (setLive sym live : Gen ρ Unit) :=
  fun _ _ => ⟨List.prefix_rfl, Nat.le_refl _⟩

theorem appends_setMid (sym : Nat) (mid : UInt32) : Appends 0 (setMid sym mid : Gen ρ Unit) :=
  fun _ _ => ⟨List.prefix_rfl, Nat.le_refl _⟩

theorem appends_eraseLive (sym idx : Nat) : Appends 0 (eraseLive sym idx : Gen ρ Unit) :=
  fun _ _ => ⟨List.prefix_rfl, Nat.le_refl _⟩

theorem appends_fillHeader (R : Rng ρ) (sym : Nat) : Appends 0 (fillHeader R sym) := fun _ _ => ⟨List.prefix_rfl, Nat.le_refl _⟩

theorem appends_modify {change : SyntheticFeed ρ → SyntheticFeed ρ} (same : ∀ f, (change f).out = f.out) :
    Appends 0 (modify change : Gen ρ Unit) := by
  intro f _
  refine ends_modify.mpr ?_
  rw [same]
  exact ⟨List.prefix_rfl, Nat.le_refl _⟩

theorem appends_write {M : MessageType} (member : M ∈ MessageType.all) (m : Struct M) (fits : 2 + M.kLength ≤ k) :
    Appends k (write M m : Gen ρ Unit) := by
  intro f room
  have longer : (f.written M m).out.length = f.out.length + (2 + M.kLength) := by
    rw [written, List.length_append, List.length_append, BigEndian.encode_length, encoded_length member]
  rw [Ends, write, if_neg (by omega)]
  refine ⟨List.prefix_append _ _, ?_⟩
  dsimp only
  omega

theorem Appends.mono (appends : Appends j x) (le : j ≤ k) : Appends k x := fun f room =>
  (appends f (by omega)).mono fun _ _ after => ⟨after.1, by omega⟩

theorem Appends.bind (first : Appends j x) {h : α → Gen ρ β} (next : ∀ a, Appends k (h a)) : Appends (j + k) (x >>= h) := by
  intro f room
  refine ends_bind.mpr ((first f (by omega)).mono fun a g before => ?_)
  refine (next a g (by omega)).mono fun _ t after => ⟨before.1.trans after.1, by omega⟩

/-- What appends nothing may come first. -/
theorem Appends.then (first : Appends 0 x) {h : α → Gen ρ β} (next : ∀ a, Appends k (h a)) : Appends k (x >>= h) :=
  Nat.zero_add k ▸ first.bind next

theorem Appends.forM {body : Nat → Gen ρ PUnit} (each : ∀ i, Appends k (body i)) (n : Nat) :
    Appends (n * k) (forM (List.range n) body) := by
  induction n with
  | zero => exact (appends_pure PUnit.unit).mono (Nat.zero_le _)
  | succ n ih =>
    rw [List.range_succ, List.forM_append, Nat.succ_mul]
    exact ih.bind fun _ => Nat.add_zero k ▸ (each n).bind fun _ => appends_pure _

variable (R : Rng ρ)

theorem appends_emitSystem (code : Char) : Appends 14 (emitSystem code : Gen ρ Unit) := by
  refine Appends.then (appends_modify ?_) fun _ => appends_get.then fun f => ?_
  · exact fun _ => rfl
  · exact appends_write (by simp [MessageType.all]) _ (by decide)

theorem appends_emitDirectory (sym : Nat) : Appends 41 (emitDirectory R sym) := by
  refine (appends_fillHeader R sym).then fun h => ?_
  exact appends_write (by simp [MessageType.all]) _ (by decide)

theorem appends_addOrder (sym : Nat) : Appends 42 (addOrder R sym) := by
  refine (appends_draw _).then fun heads => appends_get.then fun f => appends_takeRef.then fun ref => ?_
  refine Appends.then ((appends_draw _).then fun _ => appends_pure _) fun price => ?_
  refine Appends.then ((appends_draw _).then fun _ => appends_pure _) fun shares => ?_
  refine (appends_setLive _ _).then fun _ => (appends_draw _).then fun mpid => (appends_fillHeader R sym).then fun h => ?_
  dsimp only
  split
  · exact appends_write (by simp [MessageType.all]) _ (by decide)
  · exact appends_write (by simp [MessageType.all]) _ (by decide)

theorem appends_deleteOrder (sym idx : Nat) : Appends 21 (deleteOrder R sym idx) :=
  (appends_fillHeader R sym).then fun _ => appends_get.then fun _ =>
    (appends_write (by simp [MessageType.all]) _ (by decide)).bind fun _ => appends_eraseLive sym idx

theorem appends_drainSymbol (sym n : Nat) : Appends (n * 21) (drainSymbol R sym n) := by
  induction n with
  | zero => exact (appends_pure _).mono (Nat.zero_le _)
  | succ n ih =>
    refine appends_get.then fun f => ?_
    split
    · exact (appends_pure _).mono (Nat.zero_le _)
    · exact ((appends_deleteOrder R sym _).bind fun _ => ih).mono (by omega)

theorem appends_initSymbols (cfg : SyntheticFeedConfig) : Appends 0 (initSymbols R cfg) := by
  refine Appends.then (appends_modify ?_) fun _ => ?_
  · exact fun _ => rfl
  exact (Appends.forM (fun sym => (appends_draw _).then fun _ => appends_setMid _ _) _).mono (by omega)

end SyntheticFeed

end Itch
