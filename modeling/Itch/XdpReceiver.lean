import Itch.Lib.Reachable
import Itch.UdpFrameReads
import Mathlib.Logic.Function.Basic

namespace Itch

def kBatch : Nat := 64

/-- The UMEM of a receiver: `frames` chunks of `frameSize` bytes, by their offset. The
offsets of 32-bit counts and sizes fit in 64 bits. -/
structure Umem where
  frames : Nat
  frameSize : Nat
  positive : 0 < frameSize

/-- The chunk of an address. -/
def Umem.chunk (u : Umem) (addr : Nat) : Nat := addr / u.frameSize

/-- `xsk_umem__extract_addr` and `xsk_umem__add_offset_to_addr`. -/
structure Libxdp where
  extractAddr : Nat → Nat
  addOffsetToAddr : Nat → Nat

structure XdpDesc where
  addr : Nat
  len : Nat

structure XdpPacket where
  data : Nat := 0
  len : Nat := 0
  rxTsc : Nat := 0

structure XdpStats where
  frames : Nat := 0
  notUdp : Nat := 0
  fillStarve : Nat := 0

/-- How far `poll` is. -/
inductive PollPhase where
  | idle
  | filling (i : Nat)
  | peeking
  | receiving (rcvd i out now : Nat)

/-- A receiver with its rings and its UMEM. The fill ring holds the addresses submitted and
not yet taken, the rx ring the descriptors not yet read. -/
structure XdpReceiver where
  fill : List Nat
  kernel : List Nat := []
  rx : List XdpDesc := []
  mem : Nat → UInt8
  slots : List Nat := []
  pending : List Nat := []
  packets : Nat → XdpPacket := fun _ => {}
  stats : XdpStats := {}
  phase : PollPhase := .idle
  result : Nat := 0

namespace XdpReceiver

/-- After `open` every frame is in the fill ring. -/
def opened (u : Umem) (mem : Nat → UInt8) : XdpReceiver where
  fill := (List.range u.frames).map (· * u.frameSize)
  mem := mem

variable (s : XdpReceiver)

/-- The start of `poll`: reserves room for the pending frames, of which `granted` is given. -/
def reserve (granted : Nat) : XdpReceiver :=
  if s.pending.length ≠ 0 then
    if granted = s.pending.length then { s with phase := .filling 0, slots := [] }
    else { s with stats.fillStarve := s.stats.fillStarve + 1, result := 0, phase := .idle }
  else { s with phase := .peeking }

/-- One turn of the loop that writes the addresses into the reserved slots. -/
def fillAddr (i addr : Nat) : XdpReceiver := { s with slots := s.slots ++ [addr], phase := .filling (i + 1) }

/-- Submits the slots. What is submitted is no longer pending. -/
def submit : XdpReceiver := { s with fill := s.fill ++ s.slots, slots := [], pending := [], phase := .peeking }

def peek (rcvd now : Nat) : XdpReceiver :=
  if rcvd = 0 then { s with result := 0, phase := .idle }
  else { s with phase := .receiving rcvd 0 0 now }

/-- The bytes of the UMEM from `addr` on. -/
def bytes (addr len : Nat) : List UInt8 := (List.range len).map fun i => s.mem (addr + i)

/-- One turn of the loop over the batch, for the descriptor that is next in the rx ring. -/
def receive (x : Libxdp) (rcvd i out now : Nat) (d : XdpDesc) (rx : List XdpDesc) : XdpReceiver :=
  let pending := s.pending ++ [x.extractAddr d.addr]
  let frame := x.addOffsetToAddr d.addr
  let parsed := (parseUdpFrameReads frame d.len {}).value (s.bytes frame d.len)
  if parsed.1 ≠ none then
    { s with rx, pending, stats.notUdp := s.stats.notUdp + 1, phase := .receiving rcvd (i + 1) out now }
  else
    { s with
      rx, pending
      packets := Function.update s.packets out { data := parsed.2.payload, len := parsed.2.len, rxTsc := now }
      phase := .receiving rcvd (i + 1) (out + 1) now }

/-- The end of `poll`. -/
def release (rcvd out : Nat) : XdpReceiver :=
  { s with stats.frames := s.stats.frames + rcvd, result := out, phase := .idle }

end XdpReceiver

/-- The descriptor is one of a frame in the chunk `c`. -/
structure XdpDesc.Of (u : Umem) (x : Libxdp) (d : XdpDesc) (c : Nat) : Prop where
  chunk : u.chunk (x.extractAddr d.addr) = c
  start : c * u.frameSize ≤ x.addOffsetToAddr d.addr
  stop : x.addOffsetToAddr d.addr + d.len ≤ (c + 1) * u.frameSize

inductive XdpTurn where
  | program
  | kernel

/-- A step of a poll or of the kernel. -/
inductive XdpStep (u : Umem) (x : Libxdp) : XdpReceiver → XdpTurn → XdpReceiver → Prop
  | reserve {s : XdpReceiver} (granted : Nat) (phase : s.phase = .idle) (grant : granted = s.pending.length ∨ granted = 0) :
      XdpStep u x s .program (s.reserve granted)
  | fillAddr {s : XdpReceiver} {i : Nat} (phase : s.phase = .filling i) (more : i < s.pending.length) :
      XdpStep u x s .program (s.fillAddr i s.pending[i])
  | submit {s : XdpReceiver} (phase : s.phase = .filling s.pending.length) : XdpStep u x s .program s.submit
  | peek {s : XdpReceiver} (rcvd now : Nat) (phase : s.phase = .peeking) (batch : rcvd ≤ kBatch) (ready : rcvd ≤ s.rx.length) :
      XdpStep u x s .program (s.peek rcvd now)
  | receive {s : XdpReceiver} {rcvd i out now : Nat} {d : XdpDesc} {rx : List XdpDesc}
      (phase : s.phase = .receiving rcvd i out now) (more : i < rcvd) (next : s.rx = d :: rx) :
      XdpStep u x s .program (s.receive x rcvd i out now d rx)
  | release {s : XdpReceiver} {rcvd out now : Nat} (phase : s.phase = .receiving rcvd rcvd out now) :
      XdpStep u x s .program (s.release rcvd out)
  /-- The kernel takes a frame from the fill ring. -/
  | take {s : XdpReceiver} {addr : Nat} {fill : List Nat} (next : s.fill = addr :: fill) :
      XdpStep u x s .kernel { s with fill, kernel := u.chunk addr :: s.kernel }
  /-- The kernel writes to a frame that it has. -/
  | write {s : XdpReceiver} {c : Nat} {mem : Nat → UInt8} (has : c ∈ s.kernel)
      (elsewhere : ∀ addr, u.chunk addr ≠ c → mem addr = s.mem addr) : XdpStep u x s .kernel { s with mem }
  /-- The kernel publishes a frame that it has. -/
  | publish {s : XdpReceiver} {c : Nat} {before after : List Nat} {d : XdpDesc} (has : s.kernel = before ++ c :: after)
      (of : d.Of u x c) : XdpStep u x s .kernel { s with kernel := before ++ after, rx := s.rx ++ [d] }

end Itch
