import Itch.SyntheticFeedInvariant

namespace Itch

open MessageType

namespace SyntheticFeed

open Fallible

variable {ρ : Type} {fail : Prop} {f : SyntheticFeed ρ}

/-! What holds after each part of the generator, whatever is drawn. -/

theorem ends_draw {α : Type} {next : ρ → α × ρ} {post : α → SyntheticFeed ρ → Prop} (all : ∀ a rng, post a { f with rng }) :
    Ends fail (draw next) post f := all _ _

theorem ends_draw_iff {α : Type} {next : ρ → α × ρ} {post : α → SyntheticFeed ρ → Prop} : Ends fail (draw next) post f ↔
    post (next f.rng).1 { f with rng := (next f.rng).2 } := Iff.rfl

theorem ends_write {M : MessageType} {m : Struct M} {post : Unit → SyntheticFeed ρ → Prop} (member : M ∈ MessageType.all)
    (all : Wrote m f (f.written M m) → post () (f.written M m)) : Ends True (write M m) post f := by
  unfold Ends write
  split
  · exact trivial
  · rename_i fits
    refine all ⟨member, rfl, rfl, ?_⟩
    have inside := Nat.le_of_not_lt fits
    rw [written, List.length_append, List.length_append, BigEndian.encode_length, encoded_length member]
    exact inside

theorem ends_setLive {sym : Nat} {live : List Live} {post : Unit → SyntheticFeed ρ → Prop} :
    Ends fail (setLive sym live) post f ↔ post () (f.setSymbol sym { f.syms sym with live }) := Iff.rfl

theorem ends_eraseLive {sym idx : Nat} {post : Unit → SyntheticFeed ρ → Prop} : Ends fail (eraseLive sym idx) post f ↔
    post () (f.setSymbol sym { f.syms sym with live := swapPop (f.syms sym).live idx }) := Iff.rfl

/-- The symbol after `takeShares`. -/
theorem ends_takeShares {sym idx : Nat} {o : Live} {qty : UInt32} {post : Unit → SyntheticFeed ρ → Prop} {left : List Live}
    (took : (if o.shares - qty = 0 then swapPop ((f.syms sym).live.set idx { o with shares := o.shares - qty }) idx
      else (f.syms sym).live.set idx { o with shares := o.shares - qty }) = left) :
    Ends fail (takeShares sym idx o qty) post f ↔ post () (f.setSymbol sym { f.syms sym with live := left }) := by
  subst took
  refine ends_bind.trans (ends_get.trans (ends_bind.trans (ends_setLive.trans ?_)))
  rw [ends_ite]
  split
  · rw [ends_eraseLive, setSymbol, setSymbol, setSymbol]
    simp only [Function.update_self, Function.update_idem]
  · exact ends_pure _

theorem ends_takeRef {post : UInt64 → SyntheticFeed ρ → Prop} :
    Ends fail takeRef post f ↔ post f.nextRef { f with nextRef := f.nextRef + 1 } := Iff.rfl

theorem ends_takeMatch {post : UInt64 → SyntheticFeed ρ → Prop} :
    Ends fail takeMatch post f ↔ post f.nextMatch { f with nextMatch := f.nextMatch + 1 } := Iff.rfl

variable (R : Rng ρ)

theorem ends_fillHeader {sym : Nat} {post : Header → SyntheticFeed ρ → Prop}
    (all : ∀ h rng ts, h.locate = UInt16.ofNat (sym + 1) → post h { f with rng, ts }) :
    Ends fail (fillHeader R sym) post f := all _ _ _ rfl

/-- One to ten lots are some shares. -/
theorem ends_pickShares {post : UInt32 → SyntheticFeed ρ → Prop} (all : ∀ shares rng, shares ≠ 0 → post shares { f with rng }) :
    Ends fail (pickShares R) post f := by
  refine ends_bind.mpr (ends_draw fun lots rng => all _ _ ?_)
  obtain ⟨n, some, few⟩ := lots
  intro zero
  have number := congrArg UInt32.toNat zero
  rw [UInt32.toNat_mul, UInt32.toNat_ofNat'] at number
  change 100 * (n % 2 ^ 32) % 2 ^ 32 = 0 at number
  omega

/-- A price is a whole number of ticks from the mid price, also where it wraps. -/
theorem ends_pickPrice {s : FeedSymbol} {side : UInt8} {post : UInt32 → SyntheticFeed ρ → Prop} (mid : s.mid.toNat % 4 = 0)
    (all : ∀ price rng, price.toNat % 4 = 0 → post price { f with rng }) : Ends fail (pickPrice R s side) post f := by
  refine ends_bind.mpr (ends_draw fun behind rng => all _ _ ?_)
  have ticks : (kTick * (1 + behind)).toNat % 4 = 0 := by
    rw [kTick, UInt32.toNat_mul]
    change 100 * (1 + behind).toNat % 2 ^ 32 % 4 = 0
    omega
  have below := (kTick * (1 + behind)).toNat_lt
  split
  · rw [UInt32.toNat_sub]
    omega
  · rw [UInt32.toNat_add]
    omega

section Events

variable {symbols : Nat} {sent : List (List UInt8)}

theorem emitSystem_ends (good : Good symbols f sent) (code : Char) :
    Ends True (emitSystem code) (fun _ g => (∃ sent, Good symbols g sent) ∧ g.syms = f.syms) f := by
  refine ends_bind.mpr (ends_modify.mpr (ends_bind.mpr (ends_get.mpr ?_)))
  refine ends_write (by simp [MessageType.all]) fun wrote => ⟨?_, rfl⟩
  have decoded := wrote.decode (fun m => .systemEvent (.of m)) fun _ => rfl
  refine ⟨_, good.other (wrote.of_same rfl rfl rfl rfl) ?_ rfl rfl⟩
  rw [decoded]
  intro _ book
  cases book

theorem emitDirectory_ends (good : Good symbols f sent) (sym : Nat) :
    Ends True (emitDirectory R sym) (fun _ g => ∃ sent, Good symbols g sent) f := by
  refine ends_bind.mpr (ends_fillHeader R fun h rng ts locate => ?_)
  refine ends_write (by simp [MessageType.all]) fun wrote => ?_
  have decoded := wrote.decode (fun m => .stockDirectory (.of m)) fun _ => rfl
  refine ⟨_, good.other (wrote.of_same rfl rfl rfl rfl) ?_ rfl rfl⟩
  rw [decoded]
  intro _ book
  cases book

theorem trade_ends (good : Good symbols f sent) (sym : Nat) : Ends True (trade R sym) (fun _ g => ∃ sent, Good symbols g sent) f := by
  refine ends_bind.mpr (ends_fillHeader R fun h rng ts locate => ends_bind.mpr ?_)
  refine ends_pickShares R fun shares rng some => ends_bind.mpr (ends_get.mpr (ends_bind.mpr (ends_takeMatch.mpr ?_)))
  refine ends_write (by simp [MessageType.all]) fun wrote => ?_
  have other : ∀ p, Message.of MessageType.trade p = .other p := fun _ => rfl
  refine ⟨_, good.other (wrote.of_same rfl rfl rfl rfl) ?_ rfl rfl⟩
  rw [decode_encoded wrote.member, other]
  intro _ book
  cases book

variable {sym idx : Nat} (inside : sym < symbols) (good : Good symbols f sent)
include inside good

theorem deleteOrder_ends (here : idx < (f.syms sym).live.length) : Ends True (deleteOrder R sym idx)
    (fun _ g => (∃ sent, Good symbols g sent) ∧
      g.syms = Function.update f.syms sym { f.syms sym with live := swapPop (f.syms sym).live idx }) f := by
  refine ends_bind.mpr (ends_fillHeader R fun h rng ts locate => ?_)
  refine ends_bind.mpr (ends_get.mpr (ends_bind.mpr ?_))
  refine ends_write (by simp [MessageType.all]) fun wrote => ends_eraseLive.mpr ⟨?_, rfl⟩
  have decoded := wrote.decode (fun m => .book (.orderDelete (.of m))) fun _ => rfl
  exact ⟨_, good.removes (wrote.of_same rfl rfl rfl rfl) decoded ⟨inside, _, _, rfl, swapPop_perm here, List.Perm.refl _⟩ rfl
    locate rfl rfl⟩

theorem addOrder_ends : Ends True (addOrder R sym) (fun _ g => ∃ sent, Good symbols g sent) f := by
  refine ends_bind.mpr (ends_draw fun heads rng => ?_)
  refine ends_bind.mpr (ends_get.mpr (ends_bind.mpr (ends_takeRef.mpr (ends_bind.mpr ?_))))
  refine ends_pickPrice R (good.inStep.mids sym) fun price rng ticked => ends_bind.mpr ?_
  refine ends_pickShares R fun shares rng some => ends_bind.mpr (ends_setLive.mpr (ends_bind.mpr ?_))
  refine ends_draw fun mpid rng => ends_bind.mpr (ends_fillHeader R fun h rng ts locate => ends_ite.mpr ?_)
  have joined := List.perm_append_singleton
    ({ ref := f.nextRef, price, shares, side := if heads then ascii 'B' else ascii 'S' } : Live) (f.syms sym).live
  split
  · refine ends_write (by simp [MessageType.all]) fun wrote => ?_
    have decoded := wrote.decode (fun m => .book (.addOrderMpid (.of m))) fun _ => rfl
    exact ⟨_, good.adds (wrote.of_same rfl rfl rfl rfl) decoded ⟨inside, _, _, rfl, List.Perm.refl _, joined⟩ rfl ticked some
      (congrArg (EngineCall.add · _ _ _ _) locate) rfl⟩
  · refine ends_write (by simp [MessageType.all]) fun wrote => ?_
    have decoded := wrote.decode (fun m => .book (.addOrder (.of m))) fun _ => rfl
    exact ⟨_, good.adds (wrote.of_same rfl rfl rfl rfl) decoded ⟨inside, _, _, rfl, List.Perm.refl _, joined⟩ rfl ticked some
      (congrArg (EngineCall.add · _ _ _ _) locate) rfl⟩

theorem replaceOrder_ends (here : idx < (f.syms sym).live.length) :
    Ends True (replaceOrder R sym idx) (fun _ g => ∃ sent, Good symbols g sent) f := by
  refine ends_bind.mpr (ends_get.mpr (ends_bind.mpr (ends_fillHeader R fun h rng ts locate => ends_bind.mpr ?_)))
  refine ends_takeRef.mpr (ends_bind.mpr (ends_pickShares R fun shares rng some => ends_bind.mpr ?_))
  refine ends_pickPrice R (good.inStep.mids sym) fun price rng ticked => ends_bind.mpr ?_
  refine ends_write (by simp [MessageType.all]) fun wrote => ends_setLive.mpr ?_
  have decoded := wrote.decode (fun m => .book (.orderReplace (.of m))) fun _ => rfl
  exact ⟨_, good.replaces (wrote.of_same rfl rfl rfl rfl) decoded
    ⟨inside, _, _, rfl, getD_perm here, set_perm here _⟩ rfl locate ticked some rfl rfl⟩

theorem cancelOrder_ends (here : idx < (f.syms sym).live.length) :
    Ends True (cancelOrder R sym idx) (fun _ g => ∃ sent, Good symbols g sent) f := by
  refine ends_bind.mpr (ends_get.mpr (ends_bind.mpr (ends_fillHeader R fun h rng ts locate => ends_bind.mpr ?_)))
  refine ends_draw fun all rng => ends_bind.mpr (ends_write (by simp [MessageType.all]) fun wrote => ?_)
  refine (ends_takeShares rfl).mpr ?_
  have decoded := wrote.decode (fun m => .book (.orderCancel (.of m))) fun _ => rfl
  have qty := @part_of _ 2 (good.inStep.shares sym _ (getD_mem here)) all
  exact ⟨_, good.reduces (wrote.of_same rfl rfl rfl rfl) decoded
    ⟨inside, _, _, rfl, getD_perm here, took_perm here _ _⟩ rfl locate qty.1 qty.2 rfl rfl⟩

theorem executeOrder_ends (here : idx < (f.syms sym).live.length) :
    Ends True (executeOrder R sym idx) (fun _ g => ∃ sent, Good symbols g sent) f := by
  refine ends_bind.mpr (ends_get.mpr (ends_bind.mpr (ends_draw fun all rng => ends_bind.mpr ?_)))
  refine ends_draw fun priced rng => ends_bind.mpr (ends_fillHeader R fun h rng ts locate => ends_bind.mpr ?_)
  refine ends_takeMatch.mpr ?_
  have qty := @part_of _ 3 (good.inStep.shares sym _ (getD_mem here)) all
  dsimp only
  split
  · refine ends_bind.mpr (ends_write (by simp [MessageType.all]) fun wrote => (ends_takeShares rfl).mpr ?_)
    have decoded := wrote.decode (fun m => .book (.orderExecutedWithPrice (.of m))) fun _ => rfl
    exact ⟨_, good.reduces (wrote.of_same rfl rfl rfl rfl) decoded
      ⟨inside, _, _, rfl, getD_perm here, took_perm here _ _⟩ rfl locate qty.1 qty.2 rfl rfl⟩
  · refine ends_bind.mpr (ends_write (by simp [MessageType.all]) fun wrote => (ends_takeShares rfl).mpr ?_)
    have decoded := wrote.decode (fun m => .book (.orderExecuted (.of m))) fun _ => rfl
    exact ⟨_, good.reduces (wrote.of_same rfl rfl rfl rfl) decoded
      ⟨inside, _, _, rfl, getD_perm here, took_perm here _ _⟩ rfl locate qty.1 qty.2 rfl rfl⟩

theorem stepLive_ends (here : idx < (f.syms sym).live.length) (u : Rat) :
    Ends True (stepLive R sym idx u) (fun _ g => ∃ sent, Good symbols g sent) f := by
  have drift : ∀ g : SyntheticFeed ρ, (∃ sent, Good symbols g sent) → Ends True (do
      let f ← get
      if 9995 / 10000 < u then setMid sym ((f.syms sym).mid + kTick)
      else if 999 / 1000 < u then setMid sym ((f.syms sym).mid - kTick)
      else pure ()) (fun _ g => ∃ sent, Good symbols g sent) g := by
    rintro g ⟨sent, good⟩
    have ticked := good.inStep.mids sym
    have below := (g.syms sym).mid.toNat_lt
    refine ends_bind.mpr (ends_get.mpr ?_)
    split
    · refine ⟨_, good.mid ?_⟩
      rw [UInt32.toNat_add, kTick]
      change ((g.syms sym).mid.toNat + 100) % 2 ^ 32 % 4 = 0
      omega
    · split
      · refine ⟨_, good.mid ?_⟩
        rw [UInt32.toNat_sub, kTick]
        change (2 ^ 32 - 100 + (g.syms sym).mid.toNat) % 2 ^ 32 % 4 = 0
        omega
      · exact ⟨_, good⟩
  unfold stepLive
  refine ends_ite.mpr ?_
  split
  · exact ends_bind.mpr ((deleteOrder_ends R inside good here).mono fun _ g ok => drift g ok.1)
  · refine ends_ite.mpr ?_
    split
    · exact ends_bind.mpr ((replaceOrder_ends R inside good here).mono fun _ => drift)
    · refine ends_ite.mpr ?_
      split
      · exact ends_bind.mpr ((cancelOrder_ends R inside good here).mono fun _ => drift)
      · refine ends_ite.mpr ?_
        split
        · exact ends_bind.mpr ((executeOrder_ends R inside good here).mono fun _ => drift)
        · exact ends_bind.mpr ((trade_ends R good sym).mono fun _ => drift)

end Events

section Build

variable {symbols : Nat} {sent : List (List UInt8)}

/-- Wherever the table puts a draw, a symbol is picked that is there. -/
theorem pickSymbol_ends {cfg : SyntheticFeedConfig} (some : cfg.symbols ≠ 0) {post : Nat → SyntheticFeed ρ → Prop}
    (all : ∀ sym rng, sym < cfg.symbols.toNat → post sym { f with rng }) : Ends fail (pickSymbol R cfg) post f := by
  refine ends_bind.mpr (ends_draw fun u rng => all _ _ ?_)
  have positive : cfg.symbols.toNat ≠ 0 := fun zero => some (UInt32.toNat_inj.mp zero)
  exact (Nat.min_le_right _ _).trans_lt (Nat.sub_one_lt positive)

/-- One event. -/
theorem step_ends {cfg : SyntheticFeedConfig} (some : cfg.symbols ≠ 0) (good : Good cfg.symbols.toNat f sent) :
    Ends True (step R cfg) (fun _ g => ∃ sent, Good cfg.symbols.toNat g sent) f := by
  refine ends_bind.mpr (pickSymbol_ends R some fun sym rng inside => ends_bind.mpr (ends_draw fun u rng => ?_))
  refine ends_bind.mpr (ends_get.mpr (ends_ite.mpr ?_))
  have good := good.drawn rng
  split
  · exact addOrder_ends R inside good
  · rename_i busy
    refine ends_bind.mpr (ends_draw fun idx rng => ?_)
    have some : 0 < (f.syms sym).live.length := List.length_pos_iff.mpr fun none => busy (.inl none)
    have within : idx ≤ (f.syms sym).live.length - 1 := idx.2.2
    have here : idx < (f.syms sym).live.length := by omega
    exact stepLive_ends R inside (good.drawn rng) here u

/-- All live orders of a symbol are deleted, and no others. -/
theorem drainSymbol_ends {sym n : Nat} (inside : sym < symbols) (good : Good symbols f sent)
    (enough : (f.syms sym).live.length ≤ n) : Ends True (drainSymbol R sym n)
    (fun _ g => (∃ sent, Good symbols g sent) ∧ (g.syms sym).live = [] ∧ ∀ i ≠ sym, g.syms i = f.syms i) f := by
  induction n generalizing f sent with
  | zero =>
    have none := List.length_eq_zero_iff.mp (Nat.le_zero.mp enough)
    exact ⟨⟨_, good⟩, none, fun _ _ => rfl⟩
  | succ n ih =>
    refine ends_bind.mpr (ends_get.mpr (ends_ite.mpr ?_))
    split
    · rename_i none
      exact ⟨⟨_, good⟩, none, fun _ _ => rfl⟩
    · rename_i busy
      have some : 0 < (f.syms sym).live.length := List.length_pos_iff.mpr busy
      refine ends_bind.mpr ((deleteOrder_ends R inside good (Nat.sub_one_lt (Nat.ne_of_gt some))).mono fun _ g after => ?_)
      obtain ⟨⟨sent, good⟩, syms⟩ := after
      have fewer : (g.syms sym).live.length ≤ n := by
        rw [syms, Function.update_self]
        change (swapPop _ _).length ≤ n
        rw [swapPop, List.length_dropLast, List.length_set]
        omega
      refine (ih good fewer).mono fun _ t rest => ⟨rest.1, rest.2.1, fun i other => ?_⟩
      rw [rest.2.2 i other, syms, Function.update_of_ne other]

theorem drain_ends {cfg : SyntheticFeedConfig} (good : Good cfg.symbols.toNat f sent) :
    Ends True (drain R cfg) (fun _ g => (∃ sent, Good cfg.symbols.toNat g sent) ∧
      ∀ sym < cfg.symbols.toNat, (g.syms sym).live = []) f := by
  refine @Ends.forM _ _ _ (fun n g => (∃ sent, Good cfg.symbols.toNat g sent) ∧ ∀ sym < n, (g.syms sym).live = [])
    _ _ ?_ ⟨⟨_, good⟩, nofun⟩
  rintro sym inside g ⟨⟨sent, good⟩, drained⟩
  refine ends_bind.mpr (ends_get.mpr ?_)
  refine (drainSymbol_ends R inside good (Nat.le_refl _)).mono fun _ t after => ⟨after.1, fun i less => ?_⟩
  by_cases same : i = sym
  · rw [same]
    exact after.2.1
  · rw [after.2.2 i same]
    exact drained i (by omega)

theorem good_fresh (symbols : Nat) (rng : ρ) : Good symbols { rng } [] where
  records := ⟨rfl, rfl, Nat.zero_le _, nofun, nofun, trivial, trivial⟩
  inStep :=
    { live := by
        have none : orders symbols (fun _ => {}) = [] := List.flatMap_eq_nil_iff.mpr fun _ _ => rfl
        exact List.Perm.of_eq none.symm
      used := nofun
      nextRef := Nat.le_refl 1
      mids := fun _ => rfl
      shares := fun _ => nofun }

theorem initSymbols_ends {cfg : SyntheticFeedConfig} (rng : ρ) :
    Ends True (initSymbols R cfg) (fun _ g => ∃ sent, Good cfg.symbols.toNat g sent) { rng } := by
  refine ends_bind.mpr (ends_modify.mpr ?_)
  refine @Ends.forM _ _ _ (fun _ g => ∃ sent, Good cfg.symbols.toNat g sent) _ _ ?_ ⟨_, good_fresh _ rng⟩
  rintro sym - g ⟨sent, good⟩
  refine ends_bind.mpr (ends_draw fun px rng => ⟨_, (good.drawn rng).mid ?_⟩)
  rw [UInt32.toNat_mul, kTick]
  change (UInt32.ofNat px).toNat * 100 % 2 ^ 32 % 4 = 0
  omega

/-- The stream of a feed makes a consistent session, at whose end no order is live. -/
theorem build_ends {cfg : SyntheticFeedConfig} (some : cfg.symbols ≠ 0) (rng : ρ) : Ends True (build R cfg)
    (fun _ g => ∃ sent, Sent g sent ∧ (session sent).engine.live.entries = []) { rng } := by
  refine ends_bind.mpr (ends_modify.mpr (ends_bind.mpr ((initSymbols_ends R rng).mono fun _ f good => ?_)))
  obtain ⟨sent, good⟩ := good
  refine ends_bind.mpr ((emitSystem_ends good 'O').mono fun _ f good => ends_bind.mpr ?_)
  refine (@Ends.forM _ _ _ (fun _ g => ∃ sent, Good cfg.symbols.toNat g sent) _ _ ?_ good.1).mono fun _ f good => ?_
  · rintro sym - g ⟨sent, good⟩
    exact emitDirectory_ends R good sym
  obtain ⟨sent, good⟩ := good
  refine ends_bind.mpr ((emitSystem_ends good 'Q').mono fun _ f good => ends_bind.mpr ?_)
  refine (@Ends.forM _ _ _ (fun _ g => ∃ sent, Good cfg.symbols.toNat g sent) _ _ ?_ good.1).mono fun _ f good => ?_
  · intro sym inside g good
    refine @Ends.forM _ _ _ (fun _ g => ∃ sent, Good cfg.symbols.toNat g sent) _ _ ?_ good
    rintro - - g ⟨sent, good⟩
    exact addOrder_ends R inside good
  refine ends_bind.mpr ?_
  refine (@Ends.forM _ _ _ (fun _ g => ∃ sent, Good cfg.symbols.toNat g sent) _ _ ?_ good).mono fun _ f good => ?_
  · rintro - - g ⟨sent, good⟩
    exact step_ends R some good
  obtain ⟨sent, good⟩ := good
  refine ends_bind.mpr ((drain_ends R good).mono fun _ f drained => ?_)
  obtain ⟨⟨sent, good⟩, none⟩ := drained
  refine ends_bind.mpr ((emitSystem_ends good 'M').mono fun _ g closed => ?_)
  obtain ⟨⟨sent, good⟩, syms⟩ := closed
  refine (emitSystem_ends good 'C').mono fun _ h closed => ?_
  obtain ⟨⟨sent, good⟩, syms'⟩ := closed
  refine ⟨sent, good.records, ?_⟩
  have nothing : orders cfg.symbols.toNat h.syms = [] := by
    rw [syms', syms]
    refine List.flatMap_eq_nil_iff.mpr fun sym member => ?_
    rw [none sym (List.mem_range.mp member), List.map_nil]
  exact (nothing ▸ good.inStep.live).eq_nil

end Build

end SyntheticFeed

end Itch
