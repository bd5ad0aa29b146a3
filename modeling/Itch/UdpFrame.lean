import Itch.Bytes
import Itch.Messages

namespace Itch

structure UdpDatagram where
  payload : List UInt8
  srcIp : UInt32
  dstIp : UInt32
  srcPort : UInt16
  dstPort : UInt16
  deriving DecidableEq

/-- Why a frame is not a datagram. `kOk` is the datagram itself. -/
inductive FrameError where
  | truncated
  | notIpv4
  | badIpHeader
  | fragment
  | notUdp
  | badUdpLength
  deriving DecidableEq

def kEth : Nat := 14

def kVlan : Nat := 4

def kIpMin : Nat := 20

def kUdp : Nat := 8

/-- Where the IPv4 header of a frame starts, behind one VLAN tag if there is one. -/
def ethernetPayload (frame : List UInt8) : Except FrameError Nat :=
  if frame.length < kEth then .error .truncated else
  let ethertype := loadBe16 frame 12
  if ethertype = 0x8100 ∨ ethertype = 0x88A8 then
    if frame.length < kEth + kVlan then .error .truncated
    else if loadBe16 frame (12 + kVlan) ≠ 0x0800 then .error .notIpv4
    else .ok (12 + kVlan + 2)
  else if ethertype ≠ 0x0800 then .error .notIpv4
  else .ok (12 + 2)

/-- The datagram behind the IPv4 header at `off`. -/
def parseIpv4 (frame : List UInt8) (off : Nat) : Except FrameError UdpDatagram :=
  if frame.length < off + kIpMin then .error .truncated else
  let version := byteAt frame off >>> 4
  let ihl := (byteAt frame off &&& 0x0F).toNat * 4
  if version ≠ 4 ∨ ihl < kIpMin then .error .badIpHeader else
  let ipTotal := (loadBe16 frame (off + 2)).toNat
  if ipTotal < ihl ∨ frame.length < off + ipTotal then .error .truncated else
  let frag := loadBe16 frame (off + 6)
  if frag &&& 0x2000 ≠ 0 ∨ frag &&& 0x1FFF ≠ 0 then .error .fragment else
  if byteAt frame (off + 9) ≠ 17 then .error .notUdp else
  if ipTotal < ihl + kUdp then .error .truncated else
  let udp := off + ihl
  let udpLen := (loadBe16 frame (udp + 4)).toNat
  if udpLen < kUdp ∨ ipTotal - ihl < udpLen then .error .badUdpLength else
  .ok {
    payload := slice frame (udp + kUdp) (udpLen - kUdp)
    srcIp := loadBe32 frame (off + 12)
    dstIp := loadBe32 frame (off + 16)
    srcPort := loadBe16 frame udp
    dstPort := loadBe16 frame (udp + 2) }

def parseUdpFrame (frame : List UInt8) : Except FrameError UdpDatagram := do
  let off ← ethernetPayload frame
  parseIpv4 frame off

end Itch
