import Itch.SessionReplay
import Itch.SyntheticFeedMessages
import Itch.SyntheticFeedOrders

namespace Itch

open MessageType

namespace SyntheticFeed

variable {ρ : Type} {f g : SyntheticFeed ρ} {symbols : Nat} {sent : List (List UInt8)}

/-- The session that the messages make. -/
def session (sent : List (List UInt8)) : FeedSession := (sent.map Message.decode).foldl FeedSession.on {}

theorem session_append (sent : List (List UInt8)) (msg : List UInt8) :
    session (sent ++ [msg]) = (session sent).on (Message.decode msg) := by
  rw [session, List.map_append, List.foldl_append]
  rfl

/-- The records that a feed holds, and that they make a consistent session. -/
structure Sent (f : SyntheticFeed ρ) (sent : List (List UInt8)) : Prop where
  out : f.out = sent.flatMap framed
  messages : f.messages = sent.length
  size : f.out.length ≤ kMaxSize
  formed : ∀ msg ∈ sent, Parser.WellFormed msg
  short : ∀ msg ∈ sent, msg.length < 2 ^ 16
  consistent : Runs.Every FeedSession.on FeedSession.Consistent {} (sent.map Message.decode)
  ticked : Runs.Every FeedSession.on (fun _ m => FeedSession.Ticked m) {} (sent.map Message.decode)

/-- The live orders and references of the feed are those of the session it has sent. -/
structure InStep (symbols : Nat) (f : SyntheticFeed ρ) (s : FeedSession) : Prop where
  live : s.engine.live.entries.Perm (orders symbols f.syms)
  used : ∀ ref ∈ s.used, ref < f.nextRef
  nextRef : f.nextRef.toNat ≤ f.out.length + 1
  mids : ∀ sym, (f.syms sym).mid.toNat % 4 = 0
  shares : ∀ sym, ∀ l ∈ (f.syms sym).live, l.shares ≠ 0

/-- The invariant between two events. -/
structure Good (symbols : Nat) (f : SyntheticFeed ρ) (sent : List (List UInt8)) : Prop where
  records : Sent f sent
  inStep : InStep symbols f (session sent)

/-- One more record. -/
structure Wrote {M : MessageType} (m : Struct M) (f g : SyntheticFeed ρ) : Prop where
  member : M ∈ MessageType.all
  out : g.out = f.out ++ (BigEndian.encode 2 M.kLength ++ encoded M m)
  messages : g.messages = f.messages + 1
  fits : g.out.length ≤ kMaxSize

section Wrote

variable {M : MessageType} {m : Struct M} (wrote : Wrote m f g)
include wrote

/-- What a record follows is the bytes and the messages before. -/
theorem Wrote.of_same {f' g' : SyntheticFeed ρ} (out : f.out = f'.out) (messages : f.messages = f'.messages) (after : g.out = g'.out)
    (count : g.messages = g'.messages) : Wrote m f' g' :=
  ⟨wrote.member, by rw [← after, ← out, wrote.out], by rw [← count, ← messages, wrote.messages], after ▸ wrote.fits⟩

theorem Wrote.decode (make : Struct M → Message) (picked : ∀ p, Message.of M p = make (M.decode p)) :
    Message.decode (encoded M m) = make { m with timestamp := m.timestamp % 0x1000000000000 } :=
  decode_made wrote.member m make picked

theorem Wrote.longer : f.out.length + 1 ≤ g.out.length := by
  rw [wrote.out, List.length_append, List.length_append, BigEndian.encode_length]
  omega

theorem Wrote.sends (records : Sent f sent) (consistent : (session sent).Consistent (Message.decode (encoded M m)))
    (ticked : FeedSession.Ticked (Message.decode (encoded M m))) : Sent g (sent ++ [encoded M m]) where
  out := by
    rw [wrote.out, records.out, List.flatMap_append, List.flatMap_singleton, framed, encoded_length wrote.member]
  messages := by rw [wrote.messages, records.messages, List.length_append, List.length_singleton]
  size := wrote.fits
  formed := by
    rw [List.forall_mem_append, List.forall_mem_singleton]
    exact ⟨records.formed, encoded_formed wrote.member m⟩
  short := by
    rw [List.forall_mem_append, List.forall_mem_singleton]
    exact ⟨records.short, encoded_short wrote.member m⟩
  consistent := by
    rw [List.map_append]
    exact Runs.every_append.mpr ⟨records.consistent, consistent⟩
  ticked := by
    rw [List.map_append]
    exact Runs.every_append.mpr ⟨records.ticked, ticked⟩

end Wrote

/-- A message that is not for the book leaves the orders alone. -/
theorem Good.other {M : MessageType} {m : Struct M} (good : Good symbols f sent) (wrote : Wrote m f g)
    (apart : ∀ b, Message.decode (encoded M m) ≠ .book b) (syms : g.syms = f.syms) (nextRef : g.nextRef = f.nextRef) : Good symbols g (sent ++ [encoded M m]) := by
  have same : (session sent).on (Message.decode (encoded M m)) = session sent := by
    cases decoded : Message.decode (encoded M m) with
    | systemEvent _ => rfl
    | stockDirectory _ => rfl
    | book b => exact absurd decoded (apart b)
    | other _ => rfl
  have allowed : (session sent).Consistent (Message.decode (encoded M m)) ∧ FeedSession.Ticked (Message.decode (encoded M m)) := by
    cases decoded : Message.decode (encoded M m) with
    | systemEvent _ => exact ⟨trivial, trivial⟩
    | stockDirectory _ => exact ⟨trivial, trivial⟩
    | book b => exact absurd decoded (apart b)
    | other _ => exact ⟨trivial, trivial⟩
  have longer := wrote.longer
  refine ⟨wrote.sends good.records allowed.1 allowed.2, ?_⟩
  rw [session_append, same]
  exact
    { live := syms ▸ good.inStep.live
      used := nextRef ▸ good.inStep.used
      nextRef := by
        have before := good.inStep.nextRef
        rw [nextRef]
        omega
      mids := syms ▸ good.inStep.mids
      shares := syms ▸ good.inStep.shares }

/-- The live orders of one symbol change: `gone` leave, `new` come, and nothing else happens. -/
structure Changes (symbols sym : Nat) (gone new : List Live) (f g : SyntheticFeed ρ) : Prop where
  inside : sym < symbols
  exchange : ∃ live rest, g.syms = Function.update f.syms sym { f.syms sym with live } ∧
    (f.syms sym).live.Perm (gone ++ rest) ∧ live.Perm (new ++ rest)

section Changes

variable {sym : Nat} {gone new : List Live} (changes : Changes symbols sym gone new f g)
include changes

theorem Changes.orders : ∃ others, (orders symbols f.syms).Perm (gone.map (order sym) ++ others) ∧
    (orders symbols g.syms).Perm (new.map (order sym) ++ others) := by
  obtain ⟨live, rest, syms, old, after⟩ := changes.exchange
  rw [syms]
  exact orders_update changes.inside f.syms old after

theorem Changes.mid (i : Nat) : (g.syms i).mid = (f.syms i).mid := by
  obtain ⟨live, rest, syms, -, -⟩ := changes.exchange
  rw [syms]
  by_cases same : i = sym
  · rw [same, Function.update_self]
  · rw [Function.update_of_ne same]

theorem Changes.shares (old : ∀ i, ∀ l ∈ (f.syms i).live, l.shares ≠ 0) (some : ∀ l ∈ new, l.shares ≠ 0) (i : Nat) :
    ∀ l ∈ (g.syms i).live, l.shares ≠ 0 := by
  obtain ⟨live, rest, syms, before, after⟩ := changes.exchange
  rw [syms]
  by_cases same : i = sym
  · rw [same, Function.update_self]
    intro l member
    rcases List.mem_append.mp (after.mem_iff.mp member) with come | stays
    · exact some l come
    · exact old sym l (before.mem_iff.mpr (List.mem_append_right _ stays))
  · rw [Function.update_of_ne same]
    exact old i

end Changes

/-- A live order has shares. -/
theorem Changes.positive {sym : Nat} {l : Live} {new : List Live} (changes : Changes symbols sym [l] new f g)
    (good : Good symbols f sent) : 1 ≤ l.shares := by
  obtain ⟨live, rest, -, before, -⟩ := changes.exchange
  have some := good.inStep.shares sym l (before.mem_iff.mpr List.mem_cons_self)
  rw [UInt32.le_iff_toNat_le]
  exact Nat.one_le_iff_ne_zero.mpr fun zero => some (UInt32.toNat_inj.mp zero)

theorem Good.drawn (good : Good symbols f sent) (rng : ρ) : Good symbols { f with rng } sent := by
  obtain ⟨⟨out, messages, size, formed, short, consistent, ticked⟩, ⟨live, used, nextRef, mids, shares⟩⟩ := good
  exact ⟨⟨out, messages, size, formed, short, consistent, ticked⟩, ⟨live, used, nextRef, mids, shares⟩⟩

theorem setSymbol_syms (f : SyntheticFeed ρ) (sym : Nat) (s : FeedSymbol) :
    (f.setSymbol sym s).syms = Function.update f.syms sym s := rfl

/-- A mid price may move by ticks. -/
theorem Good.mid (good : Good symbols f sent) {sym : Nat} {mid : UInt32} (ticked : mid.toNat % 4 = 0) :
    Good symbols (f.setSymbol sym { f.syms sym with mid }) sent := by
  have live : ∀ i, ((f.setSymbol sym { f.syms sym with mid }).syms i).live = (f.syms i).live := by
    intro i
    by_cases same : i = sym
    · rw [same, setSymbol_syms, Function.update_self]
    · rw [setSymbol_syms, Function.update_of_ne same]
  obtain ⟨out, messages, size, formed, short, consistent, prices⟩ := good.records
  refine ⟨⟨out, messages, size, formed, short, consistent, prices⟩, ?_, good.inStep.used, good.inStep.nextRef, ?_, ?_⟩
  · rw [orders_congr live]
    exact good.inStep.live
  · intro i
    by_cases same : i = sym
    · rw [same, setSymbol_syms, Function.update_self]
      exact ticked
    · rw [setSymbol_syms, Function.update_of_ne same]
      exact good.inStep.mids i
  · intro i
    rw [live]
    exact good.inStep.shares i

section Book

variable {M : MessageType} {m : Struct M} {b : BookMessage} (good : Good symbols f sent) (wrote : Wrote m f g)
  (decoded : Message.decode (encoded M m) = .book b)
include good wrote decoded

/-- A message for the book, after which the feed has the orders that the book has. -/
theorem Good.book (consistent : (session sent).Consistent (.book b)) (ticked : FeedSession.Ticked (.book b))
    {sym : Nat} {gone new : List Live} (changes : Changes symbols sym gone new f g) (some : ∀ l ∈ new, l.shares ≠ 0)
    (live : ((session sent).engine.apply b.call).live.entries.Perm (orders symbols g.syms))
    (refs : b.call.given = none ∧ g.nextRef = f.nextRef ∨
      (∃ price, b.call.given = .some (f.nextRef, price)) ∧ g.nextRef = f.nextRef + 1) :
    Good symbols g (sent ++ [encoded M m]) := by
  have longer := wrote.longer
  have before := good.inStep.nextRef
  have bound : g.out.length ≤ 2 ^ 63 - 1 := wrote.fits
  refine ⟨wrote.sends good.records (decoded ▸ consistent) (decoded ▸ ticked), ?_⟩
  rw [session_append, decoded]
  refine ⟨live, ?_, ?_, ?_, changes.shares good.inStep.shares some⟩
  · intro ref member
    rcases refs with ⟨given, nextRef⟩ | ⟨⟨price, given⟩, nextRef⟩
    · rw [FeedSession.on, given] at member
      rw [nextRef]
      exact good.inStep.used ref member
    · rw [FeedSession.on, given] at member
      have small : f.nextRef < g.nextRef := by
        rw [nextRef, UInt64.lt_iff_toNat_lt, UInt64.toNat_add]
        change _ < (f.nextRef.toNat + 1) % 2 ^ 64
        omega
      rcases List.mem_cons.mp member with rfl | old
      · exact small
      · exact UInt64.lt_trans (good.inStep.used ref old) small
  · rcases refs with ⟨-, nextRef⟩ | ⟨-, nextRef⟩
    · rw [nextRef]
      omega
    · rw [nextRef, UInt64.toNat_add]
      change (f.nextRef.toNat + 1) % 2 ^ 64 ≤ _
      omega
  · intro i
    rw [changes.mid]
    exact good.inStep.mids i

theorem Good.adds {sym : Nat} {l : Live} (changes : Changes symbols sym [] [l] f g) (fresh : l.ref = f.nextRef)
    (price : l.price.toNat % 4 = 0) (some : l.shares ≠ 0)
    (call : b.call = .add (UInt16.ofNat (sym + 1)) l.ref l.side l.shares l.price) (nextRef : g.nextRef = f.nextRef + 1) :
    Good symbols g (sent ++ [encoded M m]) := by
  obtain ⟨others, before, after⟩ := changes.orders
  have unused : l.ref ∉ (session sent).used := fun used =>
    absurd (good.inStep.used l.ref used) (by rw [fresh]; exact UInt64.lt_irrefl _)
  have sound := FeedSession.sound_run good.records.consistent good.records.ticked
  have absent : (session sent).engine.live.find? (order sym l).ref = none := sound.fresh_ref unused
  refine good.book wrote decoded ?_ ?_ changes (List.forall_mem_singleton.mpr some) ?_ (.inr ⟨⟨l.price, ?_⟩, nextRef⟩)
  · rw [FeedSession.Consistent, call]
    exact unused
  · rw [FeedSession.Ticked, call]
    intro given same
    exact Option.some.inj same ▸ price
  · rw [call]
    have joined := List.Perm.of_eq (KeyedList.insert_entries absent)
    exact (joined.trans ((good.inStep.live.trans before).cons _)).trans after.symm
  · rw [call, ← fresh]
    rfl

section Taken

variable {sym : Nat} {l : Live} {new : List Live} (changes : Changes symbols sym [l] new f g)
include changes

theorem Good.removes (call : b.call = .remove l.ref) (locate : b.header.locate = UInt16.ofNat (sym + 1)) (none : new = [])
    (nextRef : g.nextRef = f.nextRef) : Good symbols g (sent ++ [encoded M m]) := by
  subst none
  obtain ⟨others, before, after⟩ := changes.orders
  have split := good.inStep.live.trans before
  refine good.book wrote decoded ?_ ?_ changes (List.forall_mem_nil _) ?_ (.inl ⟨by rw [call]; rfl, nextRef⟩)
  · rw [FeedSession.Consistent, call, locate]
    exact ⟨order sym l, NaiveEngine.find_split split, rfl, changes.positive good, UInt32.le_refl _⟩
  · rw [FeedSession.Ticked, call]
    intro _ given
    cases given
  · rw [call]
    exact (NaiveEngine.apply_remove split).trans after.symm

theorem Good.reduces {qty : UInt32} (call : b.call = .reduce l.ref qty)
    (locate : b.header.locate = UInt16.ofNat (sym + 1)) (some : 1 ≤ qty) (le : qty ≤ l.shares)
    (left : new = if l.shares - qty = 0 then [] else [{ l with shares := l.shares - qty }])
    (nextRef : g.nextRef = f.nextRef) : Good symbols g (sent ++ [encoded M m]) := by
  obtain ⟨others, before, after⟩ := changes.orders
  have split := good.inStep.live.trans before
  have nonzero : qty ≠ 0 := by
    rintro rfl
    cases some
  have stays : new.map (order sym) = BookEngine.remainder (order sym l) ((order sym l).shares - qty) := by
    rw [left, BookEngine.remainder, order]
    split
    · rfl
    · rfl
  refine good.book wrote decoded ?_ ?_ changes ?_ ?_ (.inl ⟨by rw [call]; rfl, nextRef⟩)
  · rw [FeedSession.Consistent, call, locate]
    exact ⟨order sym l, NaiveEngine.find_split split, rfl, some, le⟩
  · rw [FeedSession.Ticked, call]
    intro _ given
    cases given
  · rw [left]
    split
    · exact List.forall_mem_nil _
    · exact List.forall_mem_singleton.mpr (by assumption)
  · rw [call]
    have reduced := NaiveEngine.apply_reduce split nonzero le
    rw [← stays] at reduced
    exact reduced.trans after.symm

theorem Good.replaces {shares price : UInt32} (call : b.call = .replace l.ref f.nextRef shares price)
    (locate : b.header.locate = UInt16.ofNat (sym + 1)) (ticked : price.toNat % 4 = 0) (some : shares ≠ 0)
    (stays : new = [{ l with ref := f.nextRef, shares, price }]) (nextRef : g.nextRef = f.nextRef + 1) :
    Good symbols g (sent ++ [encoded M m]) := by
  obtain ⟨others, before, after⟩ := changes.orders
  have split := good.inStep.live.trans before
  have unused : f.nextRef ∉ (session sent).used := fun used => absurd (good.inStep.used _ used) (UInt64.lt_irrefl _)
  have sound := FeedSession.sound_run good.records.consistent good.records.ticked
  refine good.book wrote decoded ?_ ?_ changes ?_ ?_ (.inr ⟨⟨price, ?_⟩, nextRef⟩)
  · rw [FeedSession.Consistent, call, locate]
    exact ⟨unused, order sym l, NaiveEngine.find_split split, rfl, changes.positive good, UInt32.le_refl _⟩
  · rw [FeedSession.Ticked, call]
    intro given same
    exact Option.some.inj same ▸ ticked
  · rw [stays]
    exact List.forall_mem_singleton.mpr some
  · rw [call]
    rw [stays] at after
    exact (NaiveEngine.apply_replace split (sound.fresh_ref unused) shares price).trans after.symm
  · rw [call]
    rfl

end Taken

end Book

end SyntheticFeed

end Itch
