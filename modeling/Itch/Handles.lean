import Itch.Lib.Resources
import Mathlib.Data.List.Nodup

namespace Itch

open Resources

/-- What the system hands out. A UMEM lies over a mapping, and an AF_XDP socket over a UMEM.
An attached XDP program is not among them: it is the interface that has it, under no handle. -/
inductive Handle where
  | fd (n : Nat)
  | mapping (addr len : Nat)
  | bpfObject (ptr : Nat)
  | umem (ptr addr len : Nat)
  | xsk (ptr umem addr len : Nat)
  deriving DecidableEq

def Handle.needs : Handle → Option Handle
  | .fd _ => none
  | .mapping _ _ => none
  | .bpfObject _ => none
  | .umem _ addr len => some (.mapping addr len)
  | .xsk _ base addr len => some (.umem base addr len)

/-- Goes on if the call succeeds. Otherwise the error starts with `what`. -/
def check {σ : Type} (wanted : Bool) (s : σ) (what : String) (next : Prog Handle (σ × Option String)) :
    Prog Handle (σ × Option String) :=
  if wanted then
    .ask fun
      | none => .done (s, some what)
      | some _ => next
  else next

structure LargeBuffer where
  ptr : Option Nat := none
  bytes : Nat := 0

namespace LargeBuffer

def handles (b : LargeBuffer) : List Handle := (b.ptr.map fun p => .mapping p b.bytes).toList

/-- The constructor; `none` is a `bad_alloc`. Advice and first touches of pages hold nothing. -/
def new (bytes : Nat) : Prog Handle (Option LargeBuffer) :=
  if bytes = 0 then .done (some {}) else
  .acquire (.mapping · bytes) fun
    | none => .done none
    | some p => .done (some { ptr := some p, bytes })

def release (b : LargeBuffer) : Prog Handle LargeBuffer :=
  match b.ptr with
  | none => .done b
  | some p => .release (.mapping p b.bytes) (.done {})

/-- The move constructor: the new buffer and what it leaves behind. -/
def moved (o : LargeBuffer) : LargeBuffer × LargeBuffer := (o, {})

/-- The move assignment from another buffer. -/
def assign (b o : LargeBuffer) : Prog Handle (LargeBuffer × LargeBuffer) := b.release.bind fun _ => .done (o, {})

end LargeBuffer

structure ItchFile where
  data : Option Nat := none
  size : Nat := 0

namespace ItchFile

def handles (f : ItchFile) : List Handle := (f.data.map fun p => .mapping p f.size).toList

/-- What the destructor does, and `open` first. -/
def unmap (f : ItchFile) : Prog Handle ItchFile :=
  match f.data with
  | none => .done f
  | some p => .release (.mapping p f.size) (.done {})

/-- `open`, with the size that `fstat` answers. -/
def openFile (f : ItchFile) : Prog Handle (ItchFile × Option String) :=
  f.unmap.bind fun f =>
  .acquire .fd fun
    | none => .done (f, some "open")
    | some fd => .ask fun
      | none => .release (.fd fd) (.done (f, some "fstat"))
      | some stSize =>
        if stSize ≤ 0 then .release (.fd fd) (.done (f, some "file is empty")) else
        .acquire (.mapping · stSize.toNat) fun
          | none => .release (.fd fd) (.done (f, some "mmap"))
          | some p => .release (.fd fd) (.done ({ data := some p, size := stSize.toNat }, none))

end ItchFile

/-- The options that decide which calls a receiver makes. -/
structure UdpOptions where
  group : String
  interfaceIp : String
  timestamps : Bool := true

structure UdpReceiver where
  fd : Option Nat := none
  boundPort : UInt16 := 0

namespace UdpReceiver

def handles (r : UdpReceiver) : List Handle := (r.fd.map .fd).toList

def close (r : UdpReceiver) : Prog Handle UdpReceiver :=
  match r.fd with
  | none => .done { r with boundPort := 0 }
  | some fd => .release (.fd fd) (.done {})

/-- The calls that may fail; the others are best effort. -/
def configure (r : UdpReceiver) (opt : UdpOptions) : Prog Handle (UdpReceiver × Option String) :=
  let multicast := !opt.group.isEmpty
  check true r "fcntl" <|
  check true r "fcntl" <|
  check multicast r ("invalid multicast group: " ++ opt.group) <|
  check true r "bind" <|
  .ask fun name =>
    let r := match name with
      | none => r
      | some port => { r with boundPort := .ofNat port.toNat }
    check (multicast && !opt.interfaceIp.isEmpty) r ("invalid interface address: " ++ opt.interfaceIp) <|
    check multicast r "IP_ADD_MEMBERSHIP" <|
    check opt.timestamps r "SO_TIMESTAMPING" <|
    .done (r, none)

/-- A half-configured socket is never left open. -/
def openSocket (r : UdpReceiver) (opt : UdpOptions) : Prog Handle (UdpReceiver × Option String) :=
  r.close.bind fun r =>
  .acquire .fd fun
    | none => .done (r, some "socket")
    | some fd => (configure { r with fd := some fd } opt).bind fun
      | (r, none) => .done (r, none)
      | (r, some err) => r.close.bind fun r => .done (r, some err)

end UdpReceiver

structure XdpOpenOptions where
  ifname : String
  group : String
  bpfObject : String
  frames : UInt32 := 4096
  frameSize : UInt32 := 2048

/-- A UMEM knows its area. -/
structure XskUmem where
  ptr : Nat
  area : Nat
  size : Nat

/-- A socket knows its UMEM. -/
structure Xsk where
  ptr : Nat
  umem : XskUmem

def XskUmem.handle (u : XskUmem) : Handle := .umem u.ptr u.area u.size

def Xsk.handle (x : Xsk) : Handle := .xsk x.ptr x.umem.ptr x.umem.area x.umem.size

/-- What an `XdpReceiver` holds between calls of `poll`. -/
structure XdpHandles where
  obj : Option Nat := none
  attached : Bool := false
  umemArea : Option Nat := none
  umemSize : Nat := 0
  umem : Option XskUmem := none
  xsk : Option Xsk := none
  mcastFd : Option Nat := none

namespace XdpHandles

/-- The handles in the order in which `close` gives them back. -/
def handles (s : XdpHandles) : List Handle :=
  (s.mcastFd.map .fd).toList ++ (s.xsk.map Xsk.handle).toList ++ (s.umem.map XskUmem.handle).toList ++
    (s.umemArea.map fun a => .mapping a s.umemSize).toList ++ (s.obj.map .bpfObject).toList

/-- Detaches the program, whatever the answer; then each pointer that is set is given back and cleared. -/
def close (s : XdpHandles) : Prog Handle XdpHandles :=
  let giveBack : Prog Handle XdpHandles := .releaseAll s.handles (.done { umemSize := s.umemSize })
  if s.attached then .ask fun _ => giveBack else giveBack

/-- `open`. On an error what is set up so far stays for `close`. -/
def openSocket (s : XdpHandles) (opt : XdpOpenOptions) : Prog Handle (XdpHandles × Option String) :=
  s.close.bind fun s =>
  if opt.frames &&& (opt.frames - 1) ≠ 0 ∨ opt.frames = 0 then .done (s, some "frames must be a power of two") else
  check true s ("if_nametoindex(" ++ opt.ifname ++ ")") <|
  .acquire .bpfObject fun
  | none => .done (s, some ("bpf_object__open_file(" ++ opt.bpfObject ++ ")"))
  | some obj =>
    let s := { s with obj := some obj }
    check true s "bpf_object__load" <|
    check true s "BPF object lacks xdp_udp_filter/cfg_map/xsks_map" <|
    check (!opt.group.isEmpty) s ("invalid group: " ++ opt.group) <|
    check true s "cfg_map update" <|
    let s := { s with umemSize := opt.frames.toNat * opt.frameSize.toNat }
    .acquire (.mapping · s.umemSize) fun
    | none => .done (s, some "mmap(UMEM)")
    | some area =>
      let s := { s with umemArea := some area }
      .acquire (.umem · area s.umemSize) fun
      | none => .done (s, some "xsk_umem__create")
      | some ptr =>
        let umem : XskUmem := { ptr, area, size := s.umemSize }
        let s := { s with umem := some umem }
        .acquire (.xsk · umem.ptr umem.area umem.size) fun
        | none => .done (s, some "xsk_socket__create")
        | some ptr =>
          let s := { s with xsk := some { ptr, umem } }
          check true s "xsks_map update" <|
          check true s "fill ring smaller than UMEM" <|
          check true s "bpf_xdp_attach" <|
          let s := { s with attached := true }
          if opt.group.isEmpty then .done (s, none) else
          .acquire .fd fun
          | none => .done (s, some "IP_ADD_MEMBERSHIP")
          | some fd =>
            let s := { s with mcastFd := some fd }
            check true s "IP_ADD_MEMBERSHIP" <|
            .done (s, none)

end XdpHandles

structure PerfCounters where
  leader : Option Nat := none
  ref : Option Nat := none
  instr : Option Nat := none
  error : String := ""

namespace PerfCounters

/-- The descriptors in the order in which `close_all` closes them. -/
def handles (c : PerfCounters) : List Handle :=
  (c.instr.map .fd).toList ++ (c.ref.map .fd).toList ++ (c.leader.map .fd).toList

def closeAll (c : PerfCounters) : Prog Handle PerfCounters := .releaseAll c.handles (.done { error := c.error })

/-- The constructor. The reference cycles are optional. -/
def new : Prog Handle PerfCounters :=
  .acquire .fd fun
  | none => .done { error := "perf_event_open(cycles)" }
  | some leader => .acquire .fd fun
    | none => closeAll { leader := some leader, error := "perf_event_open(instructions)" }
    | some instr => .acquire .fd fun
      | none => .done { leader := some leader, instr := some instr, error := "ref-cycles unavailable: no frequency ratio" }
      | some ref => .done { leader := some leader, instr := some instr, ref := some ref }

end PerfCounters

end Itch
