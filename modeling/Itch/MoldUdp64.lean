import Itch.Bytes

namespace Itch

def kMoldHeaderLength : Nat := 20
def kMoldHeartbeat : Nat := 0
def kMoldEndOfSession : Nat := 0xFFFF

/-- The parsed header. `sequence` is the 64-bit and `count` the 16-bit field. -/
structure MoldHeader where
  session : List UInt8
  sequence : Nat
  count : Nat
  deriving DecidableEq, Repr

def parseMoldHeader (pkt : List UInt8) : Option MoldHeader :=
  if pkt.length < kMoldHeaderLength then none
  else some { session := slice pkt 0 10, sequence := (loadBe64 pkt 10).toNat, count := (loadBe16 pkt 18).toNat }

/-- One call of the callback: `len` bytes at `off` in the packet, numbered `seq`. -/
structure Delivery where
  off : Nat
  len : Nat
  seq : Nat
  deriving DecidableEq, Repr

def Delivery.message (pkt : List UInt8) (d : Delivery) : List UInt8 := slice pkt d.off d.len

structure MoldResult where
  delivered : Nat := 0
  gapFirst : Nat := 0
  gapCount : Nat := 0
  malformed : Bool := false
  endOfSession : Bool := false
  sessionChanged : Bool := false
  deriving DecidableEq, Repr

/-- Tracks the expected sequence number of one session. -/
structure MoldSequencer where
  session : List UInt8 := List.replicate 10 0
  next : Nat := 0
  deriving DecidableEq, Repr

/-- What a call leaves behind: the sequencer, the returned result and the
calls of the callback in order. -/
structure MoldOutcome where
  sequencer : MoldSequencer
  result : MoldResult
  calls : List Delivery
  deriving DecidableEq, Repr

/-- The loop over the message blocks, with `remaining` blocks to go, block
`i` at offset `off`. Sequence numbers are 64-bit. -/
def blockLoop (pkt : List UInt8) (sequence : Nat) :
    Nat → Nat → Nat → MoldSequencer → MoldResult → MoldOutcome
  | 0, _, _, s, r => ⟨s, r, []⟩
  | remaining + 1, i, off, s, r =>
    if pkt.length < off + 2 then ⟨s, { r with malformed := true }, []⟩
    else
      let n := (loadBe16 pkt off).toNat
      if pkt.length < off + 2 + n then ⟨s, { r with malformed := true }, []⟩
      else
        let seq := (sequence + i) % 2 ^ 64
        if seq = s.next then
          let rest := blockLoop pkt sequence remaining (i + 1) (off + 2 + n)
            { s with next := (s.next + 1) % 2 ^ 64 } { r with delivered := r.delivered + 1 }
          { rest with calls := ⟨off + 2, n, seq⟩ :: rest.calls }
        else blockLoop pkt sequence remaining (i + 1) (off + 2 + n) s r

/-- First packet, or a new session: re-baseline on the packet's number. -/
def MoldSequencer.baseline (s : MoldSequencer) (h : MoldHeader) : MoldSequencer :=
  if s.next = 0 ∨ h.session ≠ s.session then { session := h.session, next := h.sequence } else s

/-- The messages missing in front of a packet are reported, then skipped. -/
def MoldSequencer.skipGap (s : MoldSequencer) (h : MoldHeader) (r : MoldResult) : MoldSequencer × MoldResult :=
  if s.next < h.sequence then
    ({ s with next := h.sequence }, { r with gapFirst := s.next, gapCount := h.sequence - s.next })
  else (s, r)

def MoldSequencer.onPacket (s : MoldSequencer) (pkt : List UInt8) : MoldOutcome :=
  match parseMoldHeader pkt with
  | none => ⟨s, { malformed := true }, []⟩
  | some h =>
    if h.count = kMoldEndOfSession then ⟨s, { endOfSession := true }, []⟩
    else
      let changed := decide (s.next ≠ 0 ∧ h.session ≠ s.session)
      let s := s.baseline h
      -- A heartbeat's sequence number is the next expected message.
      if h.count = kMoldHeartbeat then
        let (s, r) := s.skipGap h { sessionChanged := changed }
        ⟨s, r, []⟩
      else
        let (s, r) := s.skipGap h { sessionChanged := changed }
        blockLoop pkt h.sequence h.count 0 kMoldHeaderLength s r

end Itch
