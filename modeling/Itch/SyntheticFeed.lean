import Itch.Lib.Fallible
import Itch.MessageStructs
import Mathlib.Data.Rat.Defs
import Mathlib.Logic.Function.Basic

namespace Itch

open MessageType

/-- A source of random draws, each in the range of its distribution. Any numbers may be
drawn where the source draws reals. -/
structure Rng (ρ : Type) where
  bits : ρ → UInt64 × ρ
  uniformInt : (low high : Nat) → low ≤ high → ρ → { n : Nat // low ≤ n ∧ n ≤ high } × ρ
  uniformReal : ρ → Rat × ρ
  geometric : ρ → UInt32 × ρ
  bernoulli : Rat → ρ → Bool × ρ

/-- `cdf` is the table that `init_symbols` computes from `zipf_s`, in floating point; the
seed is the first state of the draws. -/
structure SyntheticFeedConfig where
  symbols : UInt32 := 256
  events : UInt64 := 1000000
  initialOrders : UInt32 := 64
  cdf : List Rat

structure Live where
  ref : UInt64
  price : UInt32
  shares : UInt32
  side : UInt8
  deriving Inhabited

structure FeedSymbol where
  mid : UInt32 := 0
  live : List Live := []

structure SyntheticFeed (ρ : Type) where
  rng : ρ
  syms : Nat → FeedSymbol := fun _ => {}
  out : List UInt8 := []
  nextRef : UInt64 := 1
  nextMatch : UInt64 := 1
  ts : UInt64 := 34200000000000
  messages : Nat := 0

/-- The generator: it fails when the stream would exceed the size that a vector can have. -/
abbrev Gen (ρ : Type) := StateT (SyntheticFeed ρ) Option

namespace SyntheticFeed

variable {ρ : Type}

def kTick : UInt32 := 100

/-- `max_size` of a vector of bytes. -/
def kMaxSize : Nat := 2 ^ 63 - 1

def stockOf (sym : Nat) : Fin 8 → UInt8 := fun i =>
  (ascii 'S' :: (Nat.toDigits 10 sym).map ascii).getD i (ascii ' ')

/-- The bytes of a message, as `encode` leaves them in fresh ones. -/
def encoded (M : MessageType) (m : Struct M) : List UInt8 := M.encode m (List.replicate M.kLength 0)

/-- The feed after a record was appended. -/
def written (f : SyntheticFeed ρ) (M : MessageType) (m : Struct M) : SyntheticFeed ρ :=
  { f with out := f.out ++ (BigEndian.encode 2 M.kLength ++ encoded M m), messages := f.messages + 1 }

def write (M : MessageType) (m : Struct M) : Gen ρ Unit := fun f =>
  if kMaxSize < f.out.length + (2 + M.kLength) then none else some ((), f.written M m)

def draw {α : Type} (next : ρ → α × ρ) : Gen ρ α := fun f => some ((next f.rng).1, { f with rng := (next f.rng).2 })

def takeRef : Gen ρ UInt64 := fun f => some (f.nextRef, { f with nextRef := f.nextRef + 1 })

def takeMatch : Gen ρ UInt64 := fun f => some (f.nextMatch, { f with nextMatch := f.nextMatch + 1 })

def setSymbol (f : SyntheticFeed ρ) (sym : Nat) (s : FeedSymbol) : SyntheticFeed ρ :=
  { f with syms := Function.update f.syms sym s }

def setLive (sym : Nat) (live : List Live) : Gen ρ Unit :=
  modify fun f => f.setSymbol sym { f.syms sym with live }

def setMid (sym : Nat) (mid : UInt32) : Gen ρ Unit :=
  modify fun f => f.setSymbol sym { f.syms sym with mid }

/-- `v[idx] = v.back(); v.pop_back()`. -/
def swapPop (v : List Live) (idx : Nat) : List Live := (v.set idx (v.getLastD default)).dropLast

def eraseLive (sym idx : Nat) : Gen ρ Unit := do
  let f ← get
  setLive sym (swapPop (f.syms sym).live idx)

variable (R : Rng ρ)

def coin (p : Rat) : Gen ρ Bool := draw (R.bernoulli p)

def fillHeader (sym : Nat) : Gen ρ Header := do
  let bits ← draw R.bits
  modify fun f => { f with ts := f.ts + (1 + (bits &&& 0xFF)) }
  let f ← get
  pure { locate := UInt16.ofNat (sym + 1), tracking := 0, timestamp := f.ts }

def emitSystem (code : Char) : Gen ρ Unit := do
  modify fun f => { f with ts := f.ts + 1000 }
  let f ← get
  write systemEvent { timestamp := f.ts, values := (ascii code, ()) }

def emitDirectory (sym : Nat) : Gen ρ Unit := do
  let h ← fillHeader R sym
  write stockDirectory
    { toHeader := h
      values := (stockOf sym, ascii 'Q', ascii 'N', (100 : UInt32), ascii 'N', ascii 'C',
        fun i : Fin 2 => [ascii 'Z', ascii ' '].getD i 0, ascii 'P', ascii 'N', ascii 'N', ascii '1', ascii 'N', (0 : UInt32),
        ascii 'N', ()) }

def pickSymbol (cfg : SyntheticFeedConfig) : Gen ρ Nat := do
  let u ← draw R.uniformReal
  pure (min (cfg.cdf.findIdx fun c => ¬ c < u) (cfg.symbols.toNat - 1))

def pickPrice (s : FeedSymbol) (side : UInt8) : Gen ρ UInt32 := do
  let behind ← draw R.geometric
  pure (if side = ascii 'B' then s.mid - kTick * (1 + behind) else s.mid + kTick * (1 + behind))

def pickShares : Gen ρ UInt32 := do
  let n ← draw (R.uniformInt 1 10 (by decide))
  pure (100 * UInt32.ofNat n)

def addOrder (sym : Nat) : Gen ρ Unit := do
  let heads ← coin R (1 / 2)
  let side := if heads then ascii 'B' else ascii 'S'
  let f ← get
  let ref ← takeRef
  let price ← pickPrice R (f.syms sym) side
  let shares ← pickShares R
  let o : Live := { ref, price, shares, side }
  setLive sym ((f.syms sym).live ++ [o])
  let mpid ← coin R (5 / 100)
  let h ← fillHeader R sym
  if mpid then
    write addOrderMpid
      { toHeader := h
        values := (o.ref, side, o.shares, stockOf sym, o.price,
          fun i : Fin 4 => [ascii 'M', ascii 'P', ascii 'I', ascii 'D'].getD i 0, ()) }
  else
    write MessageType.addOrder { toHeader := h, values := (o.ref, side, o.shares, stockOf sym, o.price, ()) }

def deleteOrder (sym idx : Nat) : Gen ρ Unit := do
  let h ← fillHeader R sym
  let f ← get
  write orderDelete { toHeader := h, values := (((f.syms sym).live.getD idx default).ref, ()) }
  eraseLive sym idx

def replaceOrder (sym idx : Nat) : Gen ρ Unit := do
  let f ← get
  let o := (f.syms sym).live.getD idx default
  let h ← fillHeader R sym
  let newRef ← takeRef
  let shares ← pickShares R
  let price ← pickPrice R (f.syms sym) o.side
  write orderReplace { toHeader := h, values := (o.ref, newRef, shares, price, ()) }
  setLive sym ((f.syms sym).live.set idx { o with ref := newRef, shares, price })

/-- The end of a cancel or execute: the order keeps what is left, or goes. -/
def takeShares (sym idx : Nat) (o : Live) (qty : UInt32) : Gen ρ Unit := do
  let f ← get
  setLive sym ((f.syms sym).live.set idx { o with shares := o.shares - qty })
  if o.shares - qty = 0 then eraseLive sym idx else pure ()

def cancelOrder (sym idx : Nat) : Gen ρ Unit := do
  let f ← get
  let o := (f.syms sym).live.getD idx default
  let h ← fillHeader R sym
  let all ← coin R (1 / 2)
  let qty := if all then o.shares else max 1 (o.shares / 2)
  write orderCancel { toHeader := h, values := (o.ref, qty, ()) }
  takeShares sym idx o qty

def executeOrder (sym idx : Nat) : Gen ρ Unit := do
  let f ← get
  let o := (f.syms sym).live.getD idx default
  let all ← coin R (1 / 2)
  let qty := if all then o.shares else max 1 (o.shares / 3)
  let priced ← coin R (2 / 10)
  let h ← fillHeader R sym
  let matched ← takeMatch
  if priced then
    write orderExecutedWithPrice { toHeader := h, values := (o.ref, qty, matched, ascii 'Y', o.price, ()) }
  else
    write orderExecuted { toHeader := h, values := (o.ref, qty, matched, ()) }
  takeShares sym idx o qty

def trade (sym : Nat) : Gen ρ Unit := do
  let h ← fillHeader R sym
  let shares ← pickShares R
  let f ← get
  let matched ← takeMatch
  write MessageType.trade
    { toHeader := h, values := ((0 : UInt64), ascii 'B', shares, stockOf sym, (f.syms sym).mid, matched, ()) }

/-- The event on the order at `idx` that `u` stands for, and the drift of the mid price. -/
def stepLive (sym idx : Nat) (u : Rat) : Gen ρ Unit := do
  if u < 78 / 100 then deleteOrder R sym idx
  else if u < 88 / 100 then replaceOrder R sym idx
  else if u < 93 / 100 then cancelOrder R sym idx
  else if u < 98 / 100 then executeOrder R sym idx
  else trade R sym
  let f ← get
  if 9995 / 10000 < u then setMid sym ((f.syms sym).mid + kTick)
  else if 999 / 1000 < u then setMid sym ((f.syms sym).mid - kTick)
  else pure ()

def step (cfg : SyntheticFeedConfig) : Gen ρ Unit := do
  let sym ← pickSymbol R cfg
  let u ← draw R.uniformReal
  let f ← get
  if (f.syms sym).live = [] ∨ u < 42 / 100 then addOrder R sym
  else do
    let idx ← draw (R.uniformInt 0 ((f.syms sym).live.length - 1) (Nat.zero_le _))
    stepLive R sym idx u

/-- The loop that deletes from the back; there are `n` orders. -/
def drainSymbol (sym : Nat) : Nat → Gen ρ Unit
  | 0 => pure ()
  | n + 1 => do
    let f ← get
    if (f.syms sym).live = [] then pure ()
    else do
      deleteOrder R sym ((f.syms sym).live.length - 1)
      drainSymbol sym n

def drain (cfg : SyntheticFeedConfig) : Gen ρ Unit :=
  forM (List.range cfg.symbols.toNat) fun sym => do
    let f ← get
    drainSymbol R sym (f.syms sym).live.length

def initSymbols (cfg : SyntheticFeedConfig) : Gen ρ Unit := do
  modify fun f => { f with syms := fun _ => {} }
  forM (List.range cfg.symbols.toNat) fun sym => do
    let px ← draw (R.uniformInt (10 * 100) (500 * 100) (by decide))
    setMid sym (UInt32.ofNat px * kTick)

/-- The whole stream. -/
def build (cfg : SyntheticFeedConfig) : Gen ρ Unit := do
  modify fun f => { f with out := [] }
  initSymbols R cfg
  emitSystem 'O'
  forM (List.range cfg.symbols.toNat) fun sym => emitDirectory R sym
  emitSystem 'Q'
  forM (List.range cfg.symbols.toNat) fun sym => forM (List.range cfg.initialOrders.toNat) fun _ => addOrder R sym
  forM (List.range cfg.events.toNat) fun _ => step R cfg
  drain R cfg
  emitSystem 'M'
  emitSystem 'C'

end SyntheticFeed

end Itch
