import Itch.Lib.Reachable
import Mathlib.Algebra.Group.Nat.Defs
import Mathlib.Data.List.Basic
import Mathlib.Logic.Function.Basic

namespace Itch

structure BboSnapshot where
  bidPrice : UInt32 := 0
  askPrice : UInt32 := 0
  bidQty : UInt64 := 0
  askQty : UInt64 := 0
  timestamp : UInt64 := 0
  deriving DecidableEq

/-- Where the writer is in `store`: the shared access it makes next, with the
argument and the sequence it loaded. -/
inductive StorePhase where
  | idle
  | seqOdd (new : BboSnapshot) (seq : Nat)
  | prices (new : BboSnapshot) (seq : Nat)
  | bidQty (new : BboSnapshot) (seq : Nat)
  | askQty (new : BboSnapshot) (seq : Nat)
  | ts (new : BboSnapshot) (seq : Nat)
  | seqEven (new : BboSnapshot) (seq : Nat)

/-- Where a reader is in `try_load`, with what it has read. -/
inductive LoadPhase where
  | idle
  | prices (s1 : Nat)
  | bidQty (s1 : Nat) (prices : UInt64)
  | askQty (s1 : Nat) (prices bidQty : UInt64)
  | ts (s1 : Nat) (prices bidQty askQty : UInt64)
  | seqAgain (s1 : Nat) (prices bidQty askQty ts : UInt64)

/-- What a step reports: a `try_load` of `reader` that returned. -/
inductive CacheEvent (ι : Type) where
  | silent
  | failed (reader : ι)
  | loaded (reader : ι) (s1 : Nat) (out : BboSnapshot)
  deriving DecidableEq

/-- The cache's words and both sides' private state. `seq` is a 64-bit word.
The last two fields are history: the completed stores, and each reader's
successful loads with the sequence they began at. -/
structure BboCache (ι : Type) where
  seq : Nat := 0
  prices : UInt64 := 0
  bidQty : UInt64 := 0
  askQty : UInt64 := 0
  ts : UInt64 := 0
  writer : StorePhase := .idle
  readers : ι → LoadPhase := fun _ => .idle
  stores : List BboSnapshot := []
  loads : ι → List (Nat × BboSnapshot) := fun _ => []

namespace BboCache

variable {ι : Type}

def pack (lo hi : UInt32) : UInt64 := lo.toUInt64 ||| (hi.toUInt64 <<< 32)

@[simp] theorem pack_low (lo hi : UInt32) : (pack lo hi).toUInt32 = lo := by
  rw [← UInt32.toBitVec_inj]
  ext i inside
  simp [pack]

@[simp] theorem pack_high (lo hi : UInt32) : (pack lo hi >>> 32).toUInt32 = hi := by
  rw [← UInt32.toBitVec_inj]
  ext i inside
  have word : 32 + i < 64 := by omega
  have high : ¬ 32 + i < 32 := by omega
  have bit : i < 64 := by omega
  simp [pack, word, high, bit, BitVec.getLsbD_eq_getElem inside]

def version (s : BboCache ι) : Nat := s.seq / 2

/-- One access of `store` to shared state. `new` is the argument of the next
call and only used between calls. -/
def writerStep (new : BboSnapshot) (s : BboCache ι) : BboCache ι :=
  match s.writer with
  | .idle => { s with writer := .seqOdd new s.seq }
  | .seqOdd new seq => { s with seq := (seq + 1) % 2 ^ 64, writer := .prices new seq }
  | .prices new seq => { s with prices := pack new.bidPrice new.askPrice, writer := .bidQty new seq }
  | .bidQty new seq => { s with bidQty := new.bidQty, writer := .askQty new seq }
  | .askQty new seq => { s with askQty := new.askQty, writer := .ts new seq }
  | .ts new seq => { s with ts := new.timestamp, writer := .seqEven new seq }
  | .seqEven new seq => { s with seq := (seq + 2) % 2 ^ 64, writer := .idle, stores := s.stores ++ [new] }

def setReader [DecidableEq ι] (s : BboCache ι) (r : ι) (phase : LoadPhase) : BboCache ι :=
  { s with readers := Function.update s.readers r phase }

/-- The snapshot a reader assembles from the words it read. -/
def snapshot (prices bidQty askQty ts : UInt64) : BboSnapshot :=
  { bidPrice := prices.toUInt32, askPrice := (prices >>> 32).toUInt32, bidQty, askQty, timestamp := ts }

/-- One access of reader `r`'s `try_load` to shared state. -/
def readerStep [DecidableEq ι] (r : ι) (s : BboCache ι) : CacheEvent ι × BboCache ι :=
  match s.readers r with
  | .idle => if s.seq % 2 = 1 then (.failed r, s) else (.silent, s.setReader r (.prices s.seq))
  | .prices s1 => (.silent, s.setReader r (.bidQty s1 s.prices))
  | .bidQty s1 p => (.silent, s.setReader r (.askQty s1 p s.bidQty))
  | .askQty s1 p bq => (.silent, s.setReader r (.ts s1 p bq s.askQty))
  | .ts s1 p bq aq => (.silent, s.setReader r (.seqAgain s1 p bq aq s.ts))
  | .seqAgain s1 p bq aq t =>
    let back := s.setReader r .idle
    let out := snapshot p bq aq t
    if s1 = s.seq then
      (.loaded r s1 out, { back with loads := Function.update s.loads r (s.loads r ++ [(s1, out)]) })
    else (.failed r, back)

/-- The writer or one of the readers takes its next step. -/
def Step [DecidableEq ι] (s : BboCache ι) (e : CacheEvent ι) (t : BboCache ι) : Prop :=
  (∃ new, s.writerStep new = t ∧ e = .silent) ∨ ∃ r, s.readerStep r = (e, t)

end BboCache

end Itch
