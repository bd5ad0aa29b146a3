import Itch.Lib.Traced
import Itch.UdpFrame

namespace Itch

open Traced

/-- A datagram as the parser hands it out: its payload is an address and a length. -/
structure UdpView where
  payload : Nat := 0
  len : Nat := 0
  srcIp : UInt32 := 0
  dstIp : UInt32 := 0
  srcPort : UInt16 := 0
  dstPort : UInt16 := 0
  deriving DecidableEq

/-- The datagram of a view of the frame at the address `base`. -/
def UdpView.datagram (view : UdpView) (base : Nat) (frame : List UInt8) : UdpDatagram where
  payload := slice frame (view.payload - base) view.len
  srcIp := view.srcIp
  dstIp := view.dstIp
  srcPort := view.srcPort
  dstPort := view.dstPort

/-- A computation on a frame, with the indices of the bytes it reads. -/
abbrev FrameReading := Traced (List UInt8) Nat

def frameField {α : Type} (i width : Nat) (value : List UInt8 → Nat → α) : FrameReading α :=
  fun frame => (value frame i, List.range' i width)

/-- What the parser returns, and its `out`. There is no error if it returns `kOk`. -/
abbrev FrameResult := Option FrameError × UdpView

/-- The rest of `parse_udp_frame`, for the IPv4 header at `off`. -/
def ipv4Reads (base len : Nat) (out : UdpView) (off : Nat) : FrameReading FrameResult :=
  if len < off + kIpMin then pure (some .truncated, out) else do
    let first ← frameField off 1 byteAt
    let version := first >>> 4
    let ihl := (first &&& 0x0F).toNat * 4
    if version ≠ 4 ∨ ihl < kIpMin then pure (some .badIpHeader, out) else do
    let total ← frameField (off + 2) 2 loadBe16
    let ipTotal := total.toNat
    if ipTotal < ihl ∨ len < off + ipTotal then pure (some .truncated, out) else do
    let frag ← frameField (off + 6) 2 loadBe16
    if frag &&& 0x2000 ≠ 0 ∨ frag &&& 0x1FFF ≠ 0 then pure (some .fragment, out) else do
    let protocol ← frameField (off + 9) 1 byteAt
    if protocol ≠ 17 then pure (some .notUdp, out) else
    if ipTotal < ihl + kUdp then pure (some .truncated, out) else do
    let udp := off + ihl
    let length ← frameField (udp + 4) 2 loadBe16
    let udpLen := length.toNat
    if udpLen < kUdp ∨ ipTotal - ihl < udpLen then pure (some .badUdpLength, out) else do
    let srcIp ← frameField (off + 12) 4 loadBe32
    let dstIp ← frameField (off + 16) 4 loadBe32
    let srcPort ← frameField udp 2 loadBe16
    let dstPort ← frameField (udp + 2) 2 loadBe16
    pure (none, { payload := base + (udp + kUdp), len := udpLen - kUdp, srcIp, dstIp, srcPort, dstPort })

/-- `parse_udp_frame` for the `len` bytes at the address `base`. -/
def parseUdpFrameReads (base len : Nat) (out : UdpView) : FrameReading FrameResult :=
  if len < kEth then pure (some .truncated, out) else do
    let ethertype ← frameField 12 2 loadBe16
    if ethertype = 0x8100 ∨ ethertype = 0x88A8 then
      if len < kEth + kVlan then pure (some .truncated, out) else do
        let ethertype ← frameField (12 + kVlan) 2 loadBe16
        if ethertype ≠ 0x0800 then pure (some .notIpv4, out)
        else ipv4Reads base len out (12 + kVlan + 2)
    else if ethertype ≠ 0x0800 then pure (some .notIpv4, out)
    else ipv4Reads base len out (12 + 2)

/-- The view of the datagram behind the IPv4 header at `off`. -/
def viewAt (base : Nat) (frame : List UInt8) (off : Nat) : UdpView :=
  let udp := off + (byteAt frame off &&& 0x0F).toNat * 4
  { payload := base + (udp + kUdp)
    len := (loadBe16 frame (udp + 4)).toNat - kUdp
    srcIp := loadBe32 frame (off + 12)
    dstIp := loadBe32 frame (off + 16)
    srcPort := loadBe16 frame udp
    dstPort := loadBe16 frame (udp + 2) }

/-- What the parser returns for an outcome of `parseUdpFrame`. -/
def ipv4Result (base : Nat) (out : UdpView) (frame : List UInt8) (off : Nat) : Except FrameError UdpDatagram → FrameResult
  | .error e => (some e, out)
  | .ok _ => (none, viewAt base frame off)

def frameResult (base : Nat) (out : UdpView) (frame : List UInt8) : Except FrameError Nat → FrameResult
  | .error e => (some e, out)
  | .ok off => ipv4Result base out frame off (parseIpv4 frame off)

variable {base : Nat} {out : UdpView} {frame : List UInt8} {off : Nat}

@[simp] theorem value_frameField {α : Type} (i width : Nat) (value : List UInt8 → Nat → α) :
    (frameField i width value).value frame = value frame i := rfl

theorem value_ipv4 : (ipv4Reads base frame.length out off).value frame = ipv4Result base out frame off (parseIpv4 frame off) := by
  unfold ipv4Reads parseIpv4
  dsimp only
  rw [value_ite]
  split
  · rfl
  rw [value_bind, value_frameField, value_ite]
  split
  · rfl
  rw [value_bind, value_frameField, value_ite]
  split
  · rfl
  rw [value_bind, value_frameField, value_ite]
  split
  · rfl
  rw [value_bind, value_frameField, value_ite]
  split
  · rfl
  rw [value_ite]
  split
  · rfl
  rw [value_bind, value_frameField, value_ite]
  split <;> rfl

theorem value_parseUdpFrame : (parseUdpFrameReads base frame.length out).value frame =
    frameResult base out frame (ethernetPayload frame) := by
  unfold parseUdpFrameReads ethernetPayload
  rw [value_ite]
  split
  · rfl
  rw [value_bind, value_frameField]
  dsimp only
  split
  · rw [value_ite]
    split
    · rfl
    rw [value_bind, value_frameField, value_ite]
    split
    · rfl
    · exact value_ipv4
  · rw [value_ite]
    split
    · rfl
    · exact value_ipv4

/-- Every outcome but `kOk` leaves `out` alone. -/
theorem out_unchanged {e : FrameError} (error : ((parseUdpFrameReads base frame.length out).value frame).1 = some e) :
    ((parseUdpFrameReads base frame.length out).value frame).2 = out := by
  rw [value_parseUdpFrame] at error ⊢
  cases here : ethernetPayload frame with
  | error e => rfl
  | ok off =>
    rw [here, frameResult] at error
    rw [frameResult]
    cases parsed : parseIpv4 frame off with
    | error e => rfl
    | ok d =>
      rw [parsed] at error
      cases error

section Within

variable {α : Type} {value : List UInt8 → Nat → α} {i width : Nat}

theorem within_frameField (inside : i + width ≤ frame.length) : Within (· < frame.length) frame (frameField i width value) := by
  intro k member
  obtain ⟨-, before⟩ := List.mem_range'_1.mp member
  exact before.trans_le inside

theorem within_ipv4 : Within (· < frame.length) frame (ipv4Reads base frame.length out off) := by
  refine within_ite (fun _ => within_pure _) fun header => ?_
  rw [kIpMin] at header
  refine within_bind (within_frameField (by omega)) (within_ite (fun _ => within_pure _) fun version => ?_)
  refine within_bind (within_frameField (by omega)) (within_ite (fun _ => within_pure _) fun total => ?_)
  refine within_bind (within_frameField (by omega)) (within_ite (fun _ => within_pure _) fun fragment => ?_)
  refine within_bind (within_frameField (by omega)) (within_ite (fun _ => within_pure _) fun protocol => ?_)
  refine within_ite (fun _ => within_pure _) fun long => ?_
  have udp : off + ((byteAt frame off) &&& 0x0F).toNat * 4 + 8 ≤ frame.length := by
    simp only [value_frameField, kUdp, not_or, Nat.not_lt] at total long
    omega
  refine within_bind (within_frameField (by simp only [value_frameField]; omega)) (within_ite (fun _ => within_pure _) fun _ => ?_)
  refine within_bind (within_frameField (by omega)) (within_bind (within_frameField (by omega)) ?_)
  refine within_bind (within_frameField (by simp only [value_frameField]; omega)) (within_bind (within_frameField ?_) (within_pure _))
  simp only [value_frameField]
  omega

/-- No byte at or beyond `len` is read. -/
theorem within_parseUdpFrame : Within (· < frame.length) frame (parseUdpFrameReads base frame.length out) := by
  refine within_ite (fun _ => within_pure _) fun ethernet => ?_
  rw [kEth] at ethernet
  refine within_bind (within_frameField (by omega)) (within_ite (fun _ => ?_) fun _ => ?_)
  · refine within_ite (fun _ => within_pure _) fun tagged => ?_
    rw [kEth, kVlan] at tagged
    refine within_bind (within_frameField ?_) (within_ite (fun _ => within_pure _) fun _ => within_ipv4)
    rw [kVlan]
    omega
  · exact within_ite (fun _ => within_pure _) fun _ => within_ipv4

end Within

end Itch
