import Itch.UdpFrameGrammar

namespace Itch

open Traced

section Accepted

variable {frame : List UInt8} {off : Nat}

theorem drop_slice (frame : List UInt8) (p width : Nat) : frame.drop p = slice frame p width ++ frame.drop (p + width) := by
  rw [slice, ← List.drop_drop, List.take_append_drop]

theorem encode_loadBe16 (frame : List UInt8) {p : Nat} (inside : p + 2 ≤ frame.length) :
    BigEndian.encode 2 (loadBe16 frame p).toNat = slice frame p 2 := by
  have number := BigEndian.encode_decode (slice frame p 2)
  rwa [slice_length inside, ← loadBe16_toNat] at number

theorem encode_loadBe32 (frame : List UInt8) {p : Nat} (inside : p + 4 ≤ frame.length) :
    BigEndian.encode 4 (loadBe32 frame p).toNat = slice frame p 4 := by
  have number := BigEndian.encode_decode (slice frame p 4)
  rwa [slice_length inside, ← loadBe32_toNat] at number

theorem byteAt_slice_one {p : Nat} (inside : p < frame.length) : [byteAt frame p] = slice frame p 1 := by
  rw [slice, List.take_one, List.head?_drop, List.getElem?_eq_getElem inside, byteAt, List.getD_eq_getElem?_getD,
    List.getElem?_eq_getElem inside]
  rfl

/-- A header that the parser takes for Ethernet is one of the grammar. -/
theorem ethernet_of_ok (ok : ethernetPayload frame = .ok off) :
    ∃ (macs : List UInt8) (tag : Option VlanTag), macs.length = 12 ∧ off ≤ frame.length ∧
      frame.take off = macs ++ ((tag.map VlanTag.bytes).getD [] ++ [0x08, 0x00]) := by
  have ip : BigEndian.encode 2 (0x0800 : UInt16).toNat = [0x08, 0x00] := rfl
  unfold ethernetPayload at ok
  split at ok
  · cases ok
  · rename_i long
    rw [kEth] at long
    have macs : (slice frame 0 12).length = 12 := slice_length (by omega)
    dsimp only at ok
    split at ok
    · rename_i tagged
      split at ok
      · cases ok
      · rename_i long
        rw [kEth, kVlan] at long
        split at ok
        · cases ok
        · rename_i ethertype
          obtain rfl := Except.ok.inj ok
          have tci := encode_loadBe16 frame (p := 14) (by omega)
          have tpid := encode_loadBe16 frame (p := 12) (by omega)
          have field := encode_loadBe16 frame (p := 16) (by omega)
          rw [kVlan] at ethertype
          rw [not_not.mp ethertype, ip] at field
          have parts : frame.take 18 = slice frame 0 12 ++ (slice frame 12 2 ++ slice frame 14 2 ++ slice frame 16 2) := by
            rw [← slice_append, ← slice_append, ← slice_append]
            rfl
          rcases tagged with customer | service
          · refine ⟨_, some (.customer (loadBe16 frame 14)), macs, by rw [kVlan]; omega, parts.trans ?_⟩
            rw [← field, ← tci, ← tpid, customer]
            rfl
          · refine ⟨_, some (.service (loadBe16 frame 14)), macs, by rw [kVlan]; omega, parts.trans ?_⟩
            rw [← field, ← tci, ← tpid, service]
            rfl
    · split at ok
      · cases ok
      · rename_i ethertype
        obtain rfl := Except.ok.inj ok
        have field := encode_loadBe16 frame (p := 12) (by omega)
        rw [not_not.mp ethertype, ip] at field
        refine ⟨_, none, macs, by omega, ?_⟩
        rw [field]
        exact slice_append frame 0 12 2

/-- What the parser has checked of the headers from `off` on, with the lengths they carry. -/
structure AcceptedAt (frame : List UInt8) (off ihl total udpLen : Nat) : Prop where
  version : byteAt frame off >>> 4 = 4
  words : (byteAt frame off &&& 0x0F).toNat = ihl
  ipTotal : (loadBe16 frame (off + 2)).toNat = total
  moreFragments : loadBe16 frame (off + 6) &&& 0x2000 = 0
  fragmentOffset : loadBe16 frame (off + 6) &&& 0x1FFF = 0
  protocol : byteAt frame (off + 9) = 17
  length : (loadBe16 frame (off + ihl * 4 + 4)).toNat = udpLen
  options : kIpMin ≤ ihl * 4
  udp : kUdp ≤ udpLen
  fits : ihl * 4 + udpLen ≤ total
  inside : off + total ≤ frame.length

theorem acceptedAt {d : UdpDatagram} (ok : parseIpv4 frame off = .ok d) :
    ∃ ihl total udpLen, AcceptedAt frame off ihl total udpLen := by
  unfold parseIpv4 at ok
  dsimp only at ok
  split at ok
  · cases ok
  rename_i header
  split at ok
  · cases ok
  rename_i version
  split at ok
  · cases ok
  rename_i total
  split at ok
  · cases ok
  rename_i whole
  split at ok
  · cases ok
  rename_i protocol
  split at ok
  · cases ok
  rename_i udp
  split at ok
  · cases ok
  rename_i length
  obtain ⟨four, options⟩ := not_or.mp version
  obtain ⟨more, offset⟩ := not_or.mp whole
  obtain ⟨long, fits⟩ := not_or.mp length
  exact ⟨_, _, _, {
    version := not_not.mp four
    words := rfl
    ipTotal := rfl
    moreFragments := not_not.mp more
    fragmentOffset := not_not.mp offset
    protocol := not_not.mp protocol
    length := rfl
    options := Nat.le_of_not_lt options
    udp := Nat.le_of_not_lt long
    fits := by omega
    inside := by omega }⟩

/-- The first byte of a header of version 4. -/
theorem byte_of_version {b : UInt8} (version : b >>> 4 = 4) : b = 0x40 + UInt8.ofNat (b &&& 0x0F).toNat := by
  cases b with
  | ofBitVec b =>
    cases b with
    | ofFin b =>
      revert b
      decide +kernel

variable {ihl total udpLen : Nat} (accepted : AcceptedAt frame off ihl total udpLen)
include accepted

theorem AcceptedAt.ihl_lt : ihl < 16 := by
  have words := accepted.words
  have bound : (byteAt frame off &&& 0x0F).toNat ≤ (0x0F : UInt8).toNat := by
    rw [UInt8.toNat_and]
    exact Nat.and_le_right
  exact words ▸ Nat.lt_succ_of_le bound

theorem AcceptedAt.total_lt : total < 2 ^ 16 := accepted.ipTotal ▸ (loadBe16 frame (off + 2)).toNat_lt

theorem AcceptedAt.ihl_range : 5 ≤ ihl ∧ ihl < 16 := by
  have options := accepted.options
  rw [kIpMin] at options
  exact ⟨by omega, accepted.ihl_lt⟩

theorem AcceptedAt.options_length : kIpMin + (slice frame (off + kIpMin) (ihl * 4 - kIpMin)).length = ihl * 4 := by
  have options := accepted.options
  have udp := accepted.udp
  have fits := accepted.fits
  have inside := accepted.inside
  rw [slice_length (by omega)]
  omega

theorem AcceptedAt.data_fits : ihl * 4 + (kUdp + (slice frame (off + ihl * 4 + kUdp) (udpLen - kUdp)).length +
    (slice frame (off + ihl * 4 + udpLen) (total - (ihl * 4 + udpLen))).length) < 2 ^ 16 := by
  have small := accepted.total_lt
  have udp := accepted.udp
  have fits := accepted.fits
  have inside := accepted.inside
  rw [slice_length (by omega), slice_length (by omega)]
  omega

/-- The frame of the grammar that is read from the headers at `off`. -/
def AcceptedAt.toFrame (macs : List UInt8) (tag : Option VlanTag) (macs_length : macs.length = 12) : UdpFrame where
  macs := macs
  tag := tag
  ihl := ihl
  tos := byteAt frame (off + 1)
  id := loadBe16 frame (off + 4)
  fragment := loadBe16 frame (off + 6)
  ttl := byteAt frame (off + 8)
  checksum := loadBe16 frame (off + 10)
  srcIp := loadBe32 frame (off + 12)
  dstIp := loadBe32 frame (off + 16)
  options := slice frame (off + kIpMin) (ihl * 4 - kIpMin)
  srcPort := loadBe16 frame (off + ihl * 4)
  dstPort := loadBe16 frame (off + ihl * 4 + 2)
  udpChecksum := loadBe16 frame (off + ihl * 4 + 6)
  data := slice frame (off + ihl * 4 + kUdp) (udpLen - kUdp)
  trailer := slice frame (off + ihl * 4 + udpLen) (total - (ihl * 4 + udpLen))
  padding := frame.drop (off + total)
  macs_length := macs_length
  ihl_range := accepted.ihl_range
  moreFragments := accepted.moreFragments
  fragmentOffset := accepted.fragmentOffset
  options_length := accepted.options_length
  fits := accepted.data_fits

section Frame

variable (macs : List UInt8) (tag : Option VlanTag) (macs_length : macs.length = 12)

theorem AcceptedAt.udpLen_eq : (accepted.toFrame macs tag macs_length).udpLen = udpLen := by
  have udp := accepted.udp
  have fits := accepted.fits
  have inside := accepted.inside
  change kUdp + (slice _ _ _).length = _
  rw [slice_length (by omega)]
  omega

theorem AcceptedAt.ipTotal_eq : (accepted.toFrame macs tag macs_length).ipTotal = total := by
  have length := accepted.udpLen_eq macs tag macs_length
  have udp := accepted.udp
  have fits := accepted.fits
  have inside := accepted.inside
  change ihl * 4 + (UdpFrame.udpLen _ + (slice _ _ _).length) = _
  rw [length, slice_length (by omega)]
  omega

theorem AcceptedAt.ipHeader_eq : (accepted.toFrame macs tag macs_length).ipHeader = slice frame off kIpMin := by
  have total_eq : BigEndian.encode 2 (accepted.toFrame macs tag macs_length).ipTotal =
      BigEndian.encode 2 (loadBe16 frame (off + 2)).toNat := by rw [accepted.ipTotal_eq, accepted.ipTotal]
  have first := @byteAt_slice_one frame off
  have protocol := @byteAt_slice_one frame (off + 9)
  rw [byte_of_version accepted.version, accepted.words] at first
  rw [accepted.protocol] at protocol
  have options := accepted.options
  have udp := accepted.udp
  have fits := accepted.fits
  have inside := accepted.inside
  rw [kIpMin] at options
  have parts : slice frame off kIpMin = slice frame off 1 ++ slice frame (off + 1) 1 ++ slice frame (off + 2) 2 ++
      slice frame (off + 4) 2 ++ slice frame (off + 6) 2 ++ (slice frame (off + 8) 1 ++ slice frame (off + 9) 1) ++
      slice frame (off + 10) 2 ++ slice frame (off + 12) 4 ++ slice frame (off + 16) 4 := by
    rw [← slice_append frame off 1 1, ← slice_append frame (off + 8) 1 1, ← slice_append, ← slice_append, ← slice_append,
      ← slice_append, ← slice_append, ← slice_append, ← slice_append]
    rfl
  rw [parts, ← first (by omega), ← @byteAt_slice_one frame (off + 1) (by omega), ← @byteAt_slice_one frame (off + 8) (by omega),
    ← protocol (by omega), ← encode_loadBe16 frame (p := off + 2) (by omega), ← encode_loadBe16 frame (p := off + 4) (by omega),
    ← encode_loadBe16 frame (p := off + 6) (by omega), ← encode_loadBe16 frame (p := off + 10) (by omega),
    ← encode_loadBe32 frame (p := off + 12) (by omega), ← encode_loadBe32 frame (p := off + 16) (by omega), ← total_eq]
  rfl

theorem AcceptedAt.udpHeader_eq : (accepted.toFrame macs tag macs_length).udpHeader = slice frame (off + ihl * 4) kUdp := by
  have udpLen_eq : BigEndian.encode 2 (accepted.toFrame macs tag macs_length).udpLen =
      BigEndian.encode 2 (loadBe16 frame (off + ihl * 4 + 4)).toNat := by rw [accepted.udpLen_eq, accepted.length]
  have udp := accepted.udp
  have fits := accepted.fits
  have inside := accepted.inside
  rw [kUdp] at udp
  have parts : slice frame (off + ihl * 4) kUdp = slice frame (off + ihl * 4) 2 ++ slice frame (off + ihl * 4 + 2) 2 ++
      slice frame (off + ihl * 4 + 4) 2 ++ slice frame (off + ihl * 4 + 6) 2 := by
    rw [← slice_append, ← slice_append, ← slice_append]
    rfl
  rw [parts, ← encode_loadBe16 frame (p := off + ihl * 4) (by omega), ← encode_loadBe16 frame (p := off + ihl * 4 + 2) (by omega),
    ← encode_loadBe16 frame (p := off + ihl * 4 + 4) (by omega), ← encode_loadBe16 frame (p := off + ihl * 4 + 6) (by omega),
    ← udpLen_eq]
  rfl

/-- The headers that the parser accepts are those of a frame of the grammar. -/
theorem AcceptedAt.toFrame_bytes (ethernet : frame.take off = macs ++ ((tag.map VlanTag.bytes).getD [] ++ [0x08, 0x00])) :
    (accepted.toFrame macs tag macs_length).bytes = frame := by
  have ip := accepted.ipHeader_eq macs tag macs_length
  have header := accepted.udpHeader_eq macs tag macs_length
  have options := accepted.options
  have udp := accepted.udp
  have fits := accepted.fits
  have inside := accepted.inside
  rw [UdpFrame.bytes, ip, header]
  change (macs ++ ((tag.map VlanTag.bytes).getD [] ++ [0x08, 0x00])) ++ (_ ++ (slice _ _ _ ++ (_ ++ (slice _ _ _ ++
    (slice _ _ _ ++ frame.drop _))))) = frame
  have trailer := drop_slice frame (off + ihl * 4 + udpLen) (total - (ihl * 4 + udpLen))
  have data := drop_slice frame (off + ihl * 4 + kUdp) (udpLen - kUdp)
  have more := drop_slice frame (off + kIpMin) (ihl * 4 - kIpMin)
  have last : off + ihl * 4 + udpLen + (total - (ihl * 4 + udpLen)) = off + total := by omega
  have behind : off + ihl * 4 + kUdp + (udpLen - kUdp) = off + ihl * 4 + udpLen := by omega
  have next : off + kIpMin + (ihl * 4 - kIpMin) = off + ihl * 4 := by omega
  rw [last] at trailer
  rw [behind] at data
  rw [next] at more
  rw [← ethernet, ← trailer, ← data, ← drop_slice frame (off + ihl * 4) kUdp, ← more, ← drop_slice frame off kIpMin,
    List.take_append_drop]

end Frame

end Accepted

namespace UdpFrame

/-- The same frame with more bytes behind it. -/
def pad (f : UdpFrame) (more : List UInt8) : UdpFrame := { f with padding := f.padding ++ more }

theorem pad_bytes (f : UdpFrame) (more : List UInt8) : (f.pad more).bytes = f.bytes ++ more := by
  simp only [bytes, List.append_assoc]
  rfl

theorem ipEnd_le (f : UdpFrame) : f.ipEnd ≤ f.bytes.length := f.bytes_length ▸ Nat.le_add_right ..

/-- The bytes say where the IP datagram ends. -/
theorem ipEnd_of_bytes {f g : UdpFrame} (same : f.bytes = g.bytes) : f.ipEnd = g.ipEnd := by
  have off : f.ethernet.length = g.ethernet.length :=
    Except.ok.inj (f.ethernetPayload_bytes.symm.trans (same ▸ g.ethernetPayload_bytes))
  have total := f.load_total
  rw [same, off, g.load_total] at total
  rw [ipEnd, ipEnd, off, total]

/-- The payload of the view is the data, and lies in the IP datagram. -/
theorem view_payload (f : UdpFrame) (base : Nat) : (f.view base).datagram base f.bytes = f.datagram ∧
    base + f.ethernet.length ≤ (f.view base).payload ∧ (f.view base).payload + (f.view base).len ≤ base + f.ipEnd := by
  have data : slice f.bytes ((f.view base).payload - base) (f.view base).len = f.data := by
    change slice f.bytes (base + (f.ethernet.length + f.ihl * 4 + kUdp) - base) f.data.length = f.data
    rw [Nat.add_sub_cancel_left, slice_data]
  refine ⟨?_, ?_, ?_⟩
  · rw [UdpView.datagram, data]
    rfl
  · simp only [view]
    omega
  · simp only [view, ipEnd, ipTotal, udpLen]
    omega

end UdpFrame

variable (base : Nat) (out : UdpView) (frame : List UInt8)

theorem parseUdpFrame_ok_iff : ((parseUdpFrameReads base frame.length out).value frame).1 = none ↔
    ∃ f : UdpFrame, f.bytes = frame := by
  constructor
  · intro ok
    rw [value_parseUdpFrame] at ok
    cases ethernet : ethernetPayload frame with
    | error e =>
      rw [ethernet] at ok
      cases ok
    | ok off =>
      rw [ethernet, frameResult] at ok
      cases ip : parseIpv4 frame off with
      | error e =>
        rw [ip] at ok
        cases ok
      | ok d =>
        obtain ⟨macs, tag, macs_length, -, header⟩ := ethernet_of_ok ethernet
        obtain ⟨ihl, total, udpLen, accepted⟩ := acceptedAt ip
        exact ⟨_, accepted.toFrame_bytes macs tag macs_length header⟩
  · rintro ⟨f, rfl⟩
    rw [f.value_bytes base out]

/-- The parser accepts the frames of the grammar and no others, hands out their datagram
where it lies, and reads nothing outside the frame. -/
theorem parseUdpFrame_grammar :
    (((parseUdpFrameReads base frame.length out).value frame).1 = none ↔ ∃ f : UdpFrame, f.bytes = frame) ∧
    (∀ f : UdpFrame, f.bytes = frame →
      ((parseUdpFrameReads base frame.length out).value frame).2 = f.view base ∧
      (f.view base).datagram base frame = f.datagram ∧ parseUdpFrame frame = .ok f.datagram ∧
      base + f.ethernet.length ≤ (f.view base).payload ∧ (f.view base).payload + (f.view base).len ≤ base + f.ipEnd ∧
      f.ipEnd ≤ frame.length ∧
      (∀ more : List UInt8, (parseUdpFrameReads base (frame ++ more).length out).value (frame ++ more) =
        (parseUdpFrameReads base frame.length out).value frame) ∧
      ∀ n < f.ipEnd, ((parseUdpFrameReads base (frame.take n).length out).value (frame.take n)).1 ≠ none) ∧
    (((parseUdpFrameReads base frame.length out).value frame).1 ≠ none →
      ((parseUdpFrameReads base frame.length out).value frame).2 = out) ∧
    Within (· < frame.length) frame (parseUdpFrameReads base frame.length out) := by
  refine ⟨parseUdpFrame_ok_iff base out frame, ?_, fun rejected => ?_, within_parseUdpFrame⟩
  · rintro f rfl
    obtain ⟨datagram, after, before⟩ := f.view_payload base
    have value := f.value_bytes base out
    have plain : parseUdpFrame f.bytes = .ok f.datagram := by
      rw [parseUdpFrame, f.ethernetPayload_bytes]
      exact f.parseIpv4_bytes
    refine ⟨congrArg Prod.snd value, datagram, plain, after, before, f.ipEnd_le, fun more => ?_, fun n cut ok => ?_⟩
    · rw [← f.pad_bytes, value, (f.pad more).value_bytes base out]
      rfl
    · obtain ⟨g, bytes⟩ := (parseUdpFrame_ok_iff base out _).mp ok
      have same : (g.pad (f.bytes.drop n)).bytes = f.bytes := by rw [g.pad_bytes, bytes, List.take_append_drop]
      have end_ : g.ipEnd = f.ipEnd := UdpFrame.ipEnd_of_bytes (f := g.pad (f.bytes.drop n)) same
      have short := g.ipEnd_le
      rw [bytes, List.length_take] at short
      omega
  · obtain ⟨e, error⟩ := Option.ne_none_iff_exists'.mp rejected
    exact out_unchanged error

end Itch
