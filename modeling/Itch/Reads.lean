import Itch.Frames
import Itch.Lib.Traced
import Itch.MessageTypes

namespace Itch

/-- A record of a buffer: where its message starts and how long it is. -/
structure Record where
  start : Nat
  len : Nat

/-- A byte that is read: one of a length field, or one of the message of a record. -/
inductive Read where
  | framing (i : Nat)
  | content (r : Record) (i : Nat)

/-- A computation on a buffer, with the bytes it reads. -/
abbrev Reading := Traced (List UInt8) Read

/-- Reads `width` bytes from `i` on. -/
def readAt {α : Type} (read : Nat → Read) (i width : Nat) (value : List UInt8 → Nat → α) : Reading α :=
  fun buf => (value buf i, (List.range' i width).map read)

def readLength (off : Nat) : Reading Nat := readAt .framing off 2 fun buf i => (loadBe16 buf i).toNat

namespace Record

variable (r : Record)

def byte (i : Nat) : Reading UInt8 := readAt (.content r) (r.start + i) 1 byteAt

def be16 (i : Nat) : Reading UInt16 := readAt (.content r) (r.start + i) 2 loadBe16

def be32 (i : Nat) : Reading UInt32 := readAt (.content r) (r.start + i) 4 loadBe32

def be64 (i : Nat) : Reading UInt64 := readAt (.content r) (r.start + i) 8 loadBe64

/-- `load_be48_overread`: the eight bytes that end with the field, masked. -/
def be48Overread (i : Nat) : Reading UInt64 := do
  let v ← r.be64 (i - 2)
  pure (v &&& 0x0000FFFFFFFFFFFF)

def decodeValue (offset : Nat) : (t : FieldType) → Reading t.Value
  | .char => r.byte offset
  | .u16 => r.be16 offset
  | .u32 => r.be32 offset
  | .u64 => r.be64 offset
  | .alpha n _ => readAt (.content r) (r.start + offset) n fun buf i k => byteAt buf (i + k)

def decodeFields : (fs : List Field) → Reading (Values fs)
  | [] => pure ()
  | f :: fs => do
    let v ← r.decodeValue f.offset f.type
    let vs ← decodeFields fs
    pure (v, vs)

def decode (M : MessageType) : Reading (Struct M) := do
  let locate ← r.be16 1
  let tracking ← r.be16 3
  let timestamp ← r.be48Overread 5
  let values ← r.decodeFields M.kFields
  pure { locate, tracking, timestamp, values }

end Record

/-- What the book builder asks to be brought into the cache. -/
inductive Hint where
  | order (ref : UInt64)
  | levels (locate : UInt16) (side : Option UInt8)

/-- A parser's handler by its overloads of `on`: the types it has none for are not decoded. -/
structure Listener (σ : Type) where
  on : (M : MessageType) → Option (σ → Struct M → σ)
  wants : Option (σ → UInt8 → UInt16 → Bool) := none
  prefetch : Option (σ → Record → Reading (List Hint)) := none

namespace Parser

variable {σ : Type} (L : Listener σ)

/-- The call through the dispatch table. -/
def dispatchReads (p : Parser σ) (type : UInt8) (r : Record) : Reading (Parser σ) :=
  match MessageType.all.find? fun M => ascii M.kType = type with
  | none => pure p
  | some M =>
    match L.on M with
    | none => pure p
    | some on => do
      let m ← r.decode M
      pure { p with handler := on p.handler m }

def parseReads (p : Parser σ) (r : Record) : Reading (Parser σ) :=
  if r.len = 0 then pure { p with stats.empty := p.stats.empty + 1 } else do
    let type ← r.byte 0
    let expected := kMessageLength type
    if expected ≠ r.len then
      if expected = 0 then pure { p with stats.unknownType := p.stats.unknownType + 1 }
      else pure { p with stats.badLength := p.stats.badLength + 1 }
    else
      let p := { p with stats := counted p.stats type }
      match L.wants with
      | none => p.dispatchReads L type r
      | some wants => do
        let locate ← r.be16 1
        if wants p.handler type locate then p.dispatchReads L type r
        else pure { p with stats.filtered := p.stats.filtered + 1 }

end Parser

/-- The loop over the records of a buffer of `len` bytes from `off` on. -/
def streamReads {σ : Type} (parse : σ → Record → Reading σ) (len : Nat) : Nat → Nat → σ → Reading (σ × Nat)
  | 0, off, s => pure (s, off)
  | fuel + 1, off, s =>
    if off + 2 ≤ len then do
      let n ← readLength off
      if len < off + 2 + n then pure (s, off) else do
        let s ← parse s ⟨off + 2, n⟩
        streamReads parse len fuel (off + 2 + n) s
    else pure (s, off)

namespace Parser

variable {σ : Type} (L : Listener σ)

def parseStreamReads (p : Parser σ) (len : Nat) : Reading (Parser σ × Nat) := streamReads (parseReads L) len len 0 p

/-- `prefetch_next`: the record at `ahead` is prefetched if it is complete. -/
def prefetchNextReads (prefetch : σ → Record → Reading (List Hint)) (len : Nat) (s : Parser σ × Nat) :
    Reading (Parser σ × Nat) :=
  let (p, ahead) := s
  if len < ahead + 2 then pure s else do
    let n ← readLength ahead
    if len < ahead + 2 + n then pure s else do
      let _ ← prefetch p.handler ⟨ahead + 2, n⟩
      pure (p, ahead + 2 + n)

/-- The first `distance` prefetches. -/
def prefetchAhead (prefetch : σ → Record → Reading (List Hint)) (len : Nat) : Nat → Parser σ × Nat → Reading (Parser σ × Nat)
  | 0, s => pure s
  | distance + 1, s => do
    let s ← prefetchNextReads prefetch len s
    prefetchAhead prefetch len distance s

def parseStreamPrefetchReads (distance : Nat) (p : Parser σ) (len : Nat) : Reading (Parser σ × Nat) :=
  match L.prefetch with
  | none => p.parseStreamReads L len
  | some prefetch =>
    if distance = 0 then p.parseStreamReads L len else do
      let s ← prefetchAhead prefetch len distance (p, 0)
      let (s, off) ← streamReads (fun s r => do
        let p ← s.1.parseReads L r
        prefetchNextReads prefetch len (p, s.2)) len len 0 s
      pure (s.1, off)

end Parser

namespace BookBuilder

/-- Asks the sink's filter, if it has one. -/
def wantsReads (wants : Option (UInt8 → UInt16 → Bool)) (r : Record) : Reading Bool :=
  match wants with
  | none => pure true
  | some wants => do
    let type ← r.byte 0
    let locate ← r.be16 1
    pure (wants type locate)

/-- The hint for the new order of a Replace, if the record is long enough to have one. -/
def replaceHint (r : Record) : Reading (List Hint) :=
  if 27 ≤ r.len then do
    let newRef ← r.be64 19
    pure [.order newRef]
  else pure []

/-- `prefetch` of a record that nobody validated. -/
def prefetchReads (wants : Option (UInt8 → UInt16 → Bool)) (r : Record) : Reading (List Hint) :=
  if r.len < 19 then pure [] else do
    let wanted ← wantsReads wants r
    if !wanted then pure [] else do
      let type ← r.byte 0
      if type = ascii 'A' ∨ type = ascii 'F' then do
        let ref ← r.be64 11
        if 20 ≤ r.len then do
          let locate ← r.be16 1
          let side ← r.byte 19
          pure [.order ref, .levels locate (some side)]
        else pure [.order ref]
      else if type = ascii 'E' ∨ type = ascii 'C' ∨ type = ascii 'X' ∨ type = ascii 'D' then do
        let ref ← r.be64 11
        let locate ← r.be16 1
        pure [.order ref, .levels locate none]
      else if type = ascii 'U' then do
        let ref ← r.be64 11
        let replaced ← replaceHint r
        let locate ← r.be16 1
        pure ([.order ref] ++ replaced ++ [.levels locate none])
      else pure []

end BookBuilder

/-- The accessors of a frame. -/
inductive FrameCall where
  | type
  | locate
  | tracking
  | timestamp

def FrameCall.reads (r : Record) : FrameCall → Reading Nat
  | type => UInt8.toNat <$> r.byte 0
  | locate => UInt16.toNat <$> r.be16 1
  | tracking => UInt16.toNat <$> r.be16 3
  | timestamp => UInt64.toNat <$> r.be48Overread 5

/-- What a callback does with a frame: it calls accessors one after another. -/
inductive FrameProgram (τ : Type) where
  | done (t : τ)
  | call (c : FrameCall) (next : Nat → FrameProgram τ)

def FrameProgram.run {τ : Type} (r : Record) : FrameProgram τ → Reading τ
  | done t => pure t
  | call c next => do
    let value ← c.reads r
    (next value).run r

/-- The loop of `for_each_frame` from `off` on. -/
def forEachFrameReadsFrom {τ : Type} (f : τ → FrameProgram τ) (len : Nat) : Nat → Nat → FrameScan → τ → Reading (FrameScan × τ)
  | 0, off, r, t => pure ({ r with consumed := off }, t)
  | fuel + 1, off, r, t =>
    if off + 2 ≤ len then do
      let n ← readLength off
      if len < off + 2 + n then pure ({ r with consumed := off }, t) else
      let msg : Record := ⟨off + 2, n⟩
      let off := off + 2 + n
      if n = 0 then forEachFrameReadsFrom f len fuel off { r with empty := r.empty + 1 } t else do
        let type ← msg.byte 0
        if kMessageLength type ≠ n then forEachFrameReadsFrom f len fuel off { r with malformed := r.malformed + 1 } t else do
          let t ← (f t).run msg
          forEachFrameReadsFrom f len fuel off { r with frames := r.frames + 1 } t
    else pure ({ r with consumed := off }, t)

def forEachFrameReads {τ : Type} (f : τ → FrameProgram τ) (t : τ) (len : Nat) : Reading (FrameScan × τ) :=
  forEachFrameReadsFrom f len len 0 {} t

end Itch
