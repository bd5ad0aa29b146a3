import Itch.UdpFrameReads

namespace Itch

/-- A VLAN tag: 802.1Q or 802.1ad. -/
inductive VlanTag where
  | customer (tci : UInt16)
  | service (tci : UInt16)

def VlanTag.bytes : VlanTag → List UInt8
  | customer tci => [0x81, 0x00] ++ BigEndian.encode 2 tci.toNat
  | service tci => [0x88, 0xA8] ++ BigEndian.encode 2 tci.toNat

/-- The frames that carry a datagram: Ethernet II with at most one tag, IPv4 with options
and not a fragment, UDP inside the total length. Behind the datagram the IP datagram may
have more bytes, and the frame padding. -/
structure UdpFrame where
  macs : List UInt8
  tag : Option VlanTag
  ihl : Nat
  tos : UInt8
  id : UInt16
  fragment : UInt16
  ttl : UInt8
  checksum : UInt16
  srcIp : UInt32
  dstIp : UInt32
  options : List UInt8
  srcPort : UInt16
  dstPort : UInt16
  udpChecksum : UInt16
  data : List UInt8
  trailer : List UInt8
  padding : List UInt8
  macs_length : macs.length = 12
  ihl_range : 5 ≤ ihl ∧ ihl < 16
  moreFragments : fragment &&& 0x2000 = 0
  fragmentOffset : fragment &&& 0x1FFF = 0
  options_length : kIpMin + options.length = ihl * 4
  fits : ihl * 4 + (kUdp + data.length + trailer.length) < 2 ^ 16

namespace UdpFrame

def ethernet (f : UdpFrame) : List UInt8 := f.macs ++ ((f.tag.map VlanTag.bytes).getD [] ++ [0x08, 0x00])

def udpLen (f : UdpFrame) : Nat := kUdp + f.data.length

def ipTotal (f : UdpFrame) : Nat := f.ihl * 4 + (f.udpLen + f.trailer.length)

def ipHeader (f : UdpFrame) : List UInt8 :=
  [0x40 + UInt8.ofNat f.ihl, f.tos] ++ BigEndian.encode 2 f.ipTotal ++ BigEndian.encode 2 f.id.toNat ++
    BigEndian.encode 2 f.fragment.toNat ++ [f.ttl, 17] ++ BigEndian.encode 2 f.checksum.toNat ++
    BigEndian.encode 4 f.srcIp.toNat ++ BigEndian.encode 4 f.dstIp.toNat

def udpHeader (f : UdpFrame) : List UInt8 :=
  BigEndian.encode 2 f.srcPort.toNat ++ BigEndian.encode 2 f.dstPort.toNat ++ BigEndian.encode 2 f.udpLen ++
    BigEndian.encode 2 f.udpChecksum.toNat

def bytes (f : UdpFrame) : List UInt8 :=
  f.ethernet ++ (f.ipHeader ++ (f.options ++ (f.udpHeader ++ (f.data ++ (f.trailer ++ f.padding)))))

/-- Where the IP datagram ends. -/
def ipEnd (f : UdpFrame) : Nat := f.ethernet.length + f.ipTotal

/-- The view of the datagram of the frame at the address `base`. -/
def view (f : UdpFrame) (base : Nat) : UdpView where
  payload := base + (f.ethernet.length + f.ihl * 4 + kUdp)
  len := f.data.length
  srcIp := f.srcIp
  dstIp := f.dstIp
  srcPort := f.srcPort
  dstPort := f.dstPort

variable (f : UdpFrame)

theorem ipHeader_length : f.ipHeader.length = kIpMin := by simp [ipHeader, kIpMin]

theorem udpHeader_length : f.udpHeader.length = kUdp := by simp [udpHeader, kUdp]

theorem bytes_length : f.bytes.length = f.ipEnd + f.padding.length := by
  have options := f.options_length
  rw [bytes, List.length_append, List.length_append, List.length_append, List.length_append, List.length_append,
    List.length_append, ipHeader_length, udpHeader_length, ipEnd, ipTotal, udpLen]
  omega

section Part

variable {front part : List UInt8} {back : List UInt8} {k : Nat}

theorem slice_part {width : Nat} (inside : k + width ≤ part.length) :
    slice (front ++ (part ++ back)) (front.length + k) width = slice part k width := by
  rw [slice_append_right, slice_append_left back inside]

theorem loadBe16_part (inside : k + 2 ≤ part.length) :
    loadBe16 (front ++ (part ++ back)) (front.length + k) = loadBe16 part k := by
  rw [loadBe16, slice_part inside, loadBe16]

theorem loadBe32_part (inside : k + 4 ≤ part.length) :
    loadBe32 (front ++ (part ++ back)) (front.length + k) = loadBe32 part k := by
  rw [loadBe32, slice_part inside, loadBe32]

theorem byteAt_part (inside : k < part.length) : byteAt (front ++ (part ++ back)) (front.length + k) = byteAt part k := by
  rw [byteAt_skip (by omega), Nat.add_sub_cancel_left, byteAt, byteAt, List.getD_eq_getElem?_getD, List.getElem?_append_left inside,
    List.getD_eq_getElem?_getD]

end Part

theorem tag_ethertype (tag : VlanTag) : loadBe16 tag.bytes 0 = 0x8100 ∨ loadBe16 tag.bytes 0 = 0x88A8 := by
  cases tag with
  | customer tci => exact .inl (loadBe16_of_slice rfl)
  | service tci => exact .inr (loadBe16_of_slice rfl)

theorem tag_length (tag : VlanTag) : tag.bytes.length = kVlan := by cases tag <;> rfl

theorem ethernetPayload_bytes : ethernetPayload f.bytes = .ok f.ethernet.length := by
  have macs := f.macs_length
  have length : f.ethernet.length ≤ f.bytes.length := by
    rw [bytes, List.length_append]
    exact Nat.le_add_right ..
  unfold ethernetPayload
  cases tag : f.tag with
  | none =>
    have ethernet : f.ethernet = f.macs ++ [0x08, 0x00] := by rw [UdpFrame.ethernet, tag]; rfl
    have size : f.ethernet.length = 14 := by rw [ethernet, List.length_append, macs]; rfl
    have ethertype : loadBe16 f.bytes 12 = 0x0800 := by
      rw [bytes, ethernet, List.append_assoc, ← macs]
      exact (loadBe16_part (k := 0) (by decide)).trans rfl
    have untagged : ¬ ((0x0800 : UInt16) = 0x8100 ∨ (0x0800 : UInt16) = 0x88A8) := by decide
    rw [if_neg (by rw [kEth]; omega), ethertype]
    dsimp only
    rw [if_neg untagged, if_neg (by decide), size]
  | some tag' =>
    have ethernet : f.ethernet = f.macs ++ (tag'.bytes ++ [0x08, 0x00]) := by rw [UdpFrame.ethernet, tag]; rfl
    have four := tag_length tag'
    have size : f.ethernet.length = 18 := by
      rw [ethernet, List.length_append, List.length_append, macs, four]
      rfl
    have tpid : loadBe16 f.bytes 12 = loadBe16 tag'.bytes 0 := by
      rw [bytes, ethernet, List.append_assoc, List.append_assoc, ← macs]
      exact loadBe16_part (k := 0) (by rw [four]; decide)
    have ethertype : loadBe16 f.bytes (12 + kVlan) = 0x0800 := by
      rw [bytes, ethernet, ← List.append_assoc f.macs, List.append_assoc, ← macs, ← four, ← List.length_append]
      exact (loadBe16_part (k := 0) (by decide)).trans rfl
    rw [if_neg (by rw [kEth]; omega), tpid]
    dsimp only
    rw [if_pos (tag_ethertype tag'), if_neg (by rw [kEth, kVlan]; omega), ethertype, if_neg (by decide), size]
    rfl

/-- The first byte of the IPv4 header is the version and the header length. -/
theorem version_ihl : byteAt f.bytes f.ethernet.length >>> 4 = 4 ∧ (byteAt f.bytes f.ethernet.length &&& 0x0F).toNat = f.ihl := by
  obtain ⟨low, high⟩ := f.ihl_range
  have first : byteAt f.bytes f.ethernet.length = 0x40 + UInt8.ofNat f.ihl :=
    (byteAt_part (k := 0) (by rw [ipHeader_length]; decide)).trans rfl
  rw [first]
  generalize f.ihl = ihl at low high
  have all : ∀ ihl < 16, (0x40 + UInt8.ofNat ihl) >>> 4 = 4 ∧ ((0x40 + UInt8.ofNat ihl) &&& 0x0F).toNat = ihl := by decide
  exact all ihl high

section IpHeader

variable {k : Nat}

theorem ip16 (inside : k + 2 ≤ kIpMin) : loadBe16 f.bytes (f.ethernet.length + k) = loadBe16 f.ipHeader k :=
  loadBe16_part (inside.trans_eq f.ipHeader_length.symm)

theorem ip32 (inside : k + 4 ≤ kIpMin) : loadBe32 f.bytes (f.ethernet.length + k) = loadBe32 f.ipHeader k :=
  loadBe32_part (inside.trans_eq f.ipHeader_length.symm)

theorem load_total : (loadBe16 f.bytes (f.ethernet.length + 2)).toNat = f.ipTotal := by
  have fits := f.fits
  have here : slice f.ipHeader 2 2 = BigEndian.encode 2 f.ipTotal := rfl
  rw [f.ip16 (by decide), loadBe16_toNat, here]
  exact BigEndian.decode_encode_of_lt (by rw [ipTotal, udpLen]; omega)

theorem load_fragment : loadBe16 f.bytes (f.ethernet.length + 6) = f.fragment :=
  (f.ip16 (by decide)).trans (loadBe16_of_slice rfl)

theorem load_protocol : byteAt f.bytes (f.ethernet.length + 9) = 17 :=
  (byteAt_part (by rw [ipHeader_length]; decide)).trans rfl

theorem load_srcIp : loadBe32 f.bytes (f.ethernet.length + 12) = f.srcIp :=
  (f.ip32 (by decide)).trans (loadBe32_of_slice rfl)

theorem load_dstIp : loadBe32 f.bytes (f.ethernet.length + 16) = f.dstIp :=
  (f.ip32 (by decide)).trans (loadBe32_of_slice rfl)

end IpHeader

section UdpHeader

/-- What stands before the UDP header. -/
theorem bytes_udp : f.bytes = (f.ethernet ++ (f.ipHeader ++ f.options)) ++ (f.udpHeader ++ (f.data ++ (f.trailer ++ f.padding))) ∧
    (f.ethernet ++ (f.ipHeader ++ f.options)).length = f.ethernet.length + f.ihl * 4 := by
  refine ⟨by simp only [bytes, List.append_assoc], ?_⟩
  rw [List.length_append, List.length_append, ipHeader_length, f.options_length]

variable {k : Nat}

theorem udp16 (inside : k + 2 ≤ kUdp) :
    loadBe16 f.bytes (f.ethernet.length + f.ihl * 4 + k) = loadBe16 f.udpHeader k := by
  obtain ⟨split, before⟩ := f.bytes_udp
  rw [split, ← before]
  exact loadBe16_part (inside.trans_eq f.udpHeader_length.symm)

theorem load_udpLen : (loadBe16 f.bytes (f.ethernet.length + f.ihl * 4 + 4)).toNat = f.udpLen := by
  have fits := f.fits
  have here : slice f.udpHeader 4 2 = BigEndian.encode 2 f.udpLen := rfl
  rw [f.udp16 (by decide), loadBe16_toNat, here]
  exact BigEndian.decode_encode_of_lt (by rw [udpLen]; omega)

theorem load_srcPort : loadBe16 f.bytes (f.ethernet.length + f.ihl * 4) = f.srcPort :=
  (f.udp16 (k := 0) (by decide)).trans (loadBe16_of_slice rfl)

theorem load_dstPort : loadBe16 f.bytes (f.ethernet.length + f.ihl * 4 + 2) = f.dstPort :=
  (f.udp16 (by decide)).trans (loadBe16_of_slice rfl)

/-- The payload is the data. -/
theorem slice_data : slice f.bytes (f.ethernet.length + f.ihl * 4 + kUdp) f.data.length = f.data := by
  obtain ⟨split, before⟩ := f.bytes_udp
  rw [split, ← List.append_assoc _ f.udpHeader, ← before, ← f.udpHeader_length, ← List.length_append]
  exact (slice_part (k := 0) (Nat.le_of_eq (Nat.zero_add _))).trans (slice_whole _)

end UdpHeader

def datagram (f : UdpFrame) : UdpDatagram where
  payload := f.data
  srcIp := f.srcIp
  dstIp := f.dstIp
  srcPort := f.srcPort
  dstPort := f.dstPort

theorem viewAt_bytes (base : Nat) : viewAt base f.bytes f.ethernet.length = f.view base := by
  unfold viewAt
  dsimp only
  rw [f.version_ihl.2, load_udpLen, load_srcIp, load_dstIp, load_srcPort, load_dstPort, udpLen, Nat.add_sub_cancel_left]
  rfl

theorem parseIpv4_bytes : parseIpv4 f.bytes f.ethernet.length = .ok f.datagram := by
  obtain ⟨version, ihl⟩ := f.version_ihl
  have length := f.bytes_length
  have five := f.ihl_range.1
  have total : f.ipTotal = f.ihl * 4 + (f.udpLen + f.trailer.length) := rfl
  have udp : f.udpLen = kUdp + f.data.length := rfl
  have end_ : f.ipEnd = f.ethernet.length + f.ipTotal := rfl
  have whole : ¬ (f.fragment &&& 0x2000 ≠ 0 ∨ f.fragment &&& 0x1FFF ≠ 0) :=
    not_or.mpr ⟨not_not.mpr f.moreFragments, not_not.mpr f.fragmentOffset⟩
  have header : ¬ ((4 : UInt8) ≠ 4 ∨ f.ihl * 4 < kIpMin) := not_or.mpr ⟨not_not.mpr rfl, by rw [kIpMin]; omega⟩
  have options := f.options_length
  unfold parseIpv4
  dsimp only
  rw [version, ihl, load_total, load_fragment, load_protocol, load_udpLen, load_srcIp, load_dstIp, load_srcPort, load_dstPort,
    if_neg (by omega), if_neg header, if_neg (by omega), if_neg whole, if_neg (not_not.mpr rfl), if_neg (by omega),
    if_neg (by omega), udp, Nat.add_sub_cancel_left, slice_data]
  rfl

/-- The frames of the grammar are accepted, with their datagram. -/
theorem value_bytes (base : Nat) (out : UdpView) :
    (parseUdpFrameReads base f.bytes.length out).value f.bytes = (none, f.view base) := by
  rw [value_parseUdpFrame, ethernetPayload_bytes, frameResult, parseIpv4_bytes, ipv4Result, viewAt_bytes]

end UdpFrame

end Itch
