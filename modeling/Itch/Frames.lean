import Itch.Parser

namespace Itch

/-- A validated record that is not decoded. -/
structure Frame where
  data : List UInt8

namespace Frame

variable (f : Frame)

def len : Nat := f.data.length

def type : UInt8 := byteAt f.data 0

def locate : UInt16 := loadBe16 f.data 1

def tracking : UInt16 := loadBe16 f.data 3

def timestamp : UInt64 := loadBe48Overread f.data 5

end Frame

structure FrameScan where
  consumed : Nat := 0
  frames : Nat := 0
  malformed : Nat := 0
  empty : Nat := 0
  deriving DecidableEq

/-- The loop of `for_each_frame` from `off` on. Every turn consumes at least two bytes. -/
def forEachFrameFrom {τ : Type} (f : τ → Frame → τ) (buf : List UInt8) : Nat → Nat → FrameScan → τ → FrameScan × τ
  | 0, off, r, t => ({ r with consumed := off }, t)
  | fuel + 1, off, r, t =>
    if off + 2 ≤ buf.length then
      let n := (loadBe16 buf off).toNat
      if buf.length < off + 2 + n then ({ r with consumed := off }, t) else
      let msg := slice buf (off + 2) n
      let off := off + 2 + n
      if n = 0 then forEachFrameFrom f buf fuel off { r with empty := r.empty + 1 } t
      else if kMessageLength (byteAt msg 0) ≠ n then forEachFrameFrom f buf fuel off { r with malformed := r.malformed + 1 } t
      else forEachFrameFrom f buf fuel off { r with frames := r.frames + 1 } (f t ⟨msg⟩)
    else ({ r with consumed := off }, t)

/-- Calls `f` for each well-formed record. -/
def forEachFrame {τ : Type} (f : τ → Frame → τ) (buf : List UInt8) (t : τ) : FrameScan × τ :=
  forEachFrameFrom f buf buf.length 0 {} t

end Itch
