import Itch.Lib.ByteOrder
import Itch.UdpFrame

namespace Itch

/-- A two-byte field as the machine loads it. -/
def load16 (o : ByteOrder) (buf : List UInt8) (p : Nat) : UInt16 := .ofNat (o.load (slice buf p 2))

def load32 (o : ByteOrder) (buf : List UInt8) (p : Nat) : UInt32 := .ofNat (o.load (slice buf p 4))

def htons (o : ByteOrder) (x : UInt16) : UInt16 := .ofNat (o.hton 2 x.toNat)

def htonl (o : ByteOrder) (x : UInt32) : UInt32 := .ofNat (o.hton 4 x.toNat)

/-- The one entry of `cfg_map`, in network byte order. The address 0 is any destination. -/
structure FilterCfg where
  dstIp : UInt32
  dstPort : UInt16

structure XdpMd where
  data : List UInt8
  rxQueueIndex : UInt32

inductive XdpAction where
  | pass
  | redirect
  deriving DecidableEq

/-- Where the IPv4 header of a frame starts. -/
def xdpL3 (o : ByteOrder) (data : List UInt8) : Option Nat :=
  if data.length < 14 then none else
  let proto := load16 o data 12
  if proto = htons o 0x8100 ∨ proto = htons o 0x88A8 then
    if data.length < 14 + 4 then none
    else if load16 o data (14 + 2) ≠ htons o 0x0800 then none
    else some (14 + 4)
  else if proto ≠ htons o 0x0800 then none
  else some 14

/-- The test of the configuration, for the IPv4 header at `ip` and the UDP header at `udp`. -/
def xdpMatches (o : ByteOrder) (cfgMap : Option FilterCfg) (data : List UInt8) (ip udp : Nat) : Bool :=
  match cfgMap with
  | none => false
  | some cfg =>
    if load16 o data (udp + 2) ≠ cfg.dstPort then false
    else !(cfg.dstIp ≠ 0 && load32 o data (ip + 16) ≠ cfg.dstIp)

/-- The test of the headers from `ip` on. -/
def xdpHeaders (o : ByteOrder) (cfgMap : Option FilterCfg) (data : List UInt8) (ip : Nat) : Bool :=
  if data.length < ip + 20 then false else
  let ihl := byteAt data ip &&& 0x0F
  if ihl < 5 ∨ byteAt data (ip + 9) ≠ 17 then false else
  if load16 o data (ip + 6) &&& htons o 0x3FFF ≠ 0 then false else
  let udp := ip + ihl.toNat * 4
  if data.length < udp + 8 then false else
  xdpMatches o cfgMap data ip udp

/-- `xdp_udp_filter`. The socket map has a socket for each queue that one is bound to. -/
def xdpUdpFilter (o : ByteOrder) (cfgMap : Option FilterCfg) (xsksMap : UInt32 → Option UInt32) (ctx : XdpMd) : XdpAction :=
  match xdpL3 o ctx.data with
  | none => .pass
  | some ip =>
    if !xdpHeaders o cfgMap ctx.data ip then .pass
    else if (xsksMap ctx.rxQueueIndex).isSome then .redirect
    else .pass

/-- What a receiver is opened for. Without a group the address stays zero. -/
structure XdpOptions where
  dstPort : UInt16
  group : UInt32 := 0

/-- The configuration that `XdpReceiver::open` writes. -/
def XdpOptions.cfg (opt : XdpOptions) (o : ByteOrder) : FilterCfg where
  dstIp := htonl o opt.group
  dstPort := htons o opt.dstPort

/-- A datagram of the feed. -/
def XdpOptions.Accepts (opt : XdpOptions) (d : UdpDatagram) : Prop :=
  d.dstPort = opt.dstPort ∧ (opt.group ≠ 0 → d.dstIp = opt.group)

variable (o : ByteOrder)

theorem htons_inj {a b : UInt16} : htons o a = htons o b ↔ a = b := by
  have small : ∀ x : UInt16, (htons o x).toNat = o.hton 2 x.toNat := fun x =>
    UInt16.toNat_ofNat_of_lt' ((o.hton_lt x.toNat).trans_eq (by decide))
  rw [← UInt16.toNat_inj, small, small, o.hton_inj a.toNat_lt b.toNat_lt, UInt16.toNat_inj]

theorem htonl_inj {a b : UInt32} : htonl o a = htonl o b ↔ a = b := by
  have small : ∀ x : UInt32, (htonl o x).toNat = o.hton 4 x.toNat := fun x =>
    UInt32.toNat_ofNat_of_lt' ((o.hton_lt x.toNat).trans_eq (by decide))
  rw [← UInt32.toNat_inj, small, small, o.hton_inj a.toNat_lt b.toNat_lt, UInt32.toNat_inj]

theorem htons_zero : htons o 0 = 0 := by
  rw [htons, UInt16.toNat_zero, o.hton_zero]
  rfl

theorem htonl_zero : htonl o 0 = 0 := by
  rw [htonl, UInt32.toNat_zero, o.hton_zero]
  rfl

theorem htons_and (a b : UInt16) : htons o (a &&& b) = htons o a &&& htons o b := by
  rw [htons, UInt16.toNat_and, o.hton_and]
  exact UInt16.ofNat_and ..

/-- Loading a network field is `htons` of what its bytes say. -/
theorem load16_eq {buf : List UInt8} {p : Nat} (inside : p + 2 ≤ buf.length) : load16 o buf p = htons o (loadBe16 buf p) := by
  rw [load16, o.load_eq, slice_length inside, htons, loadBe16_toNat]

theorem load32_eq {buf : List UInt8} {p : Nat} (inside : p + 4 ≤ buf.length) : load32 o buf p = htonl o (loadBe32 buf p) := by
  rw [load32, o.load_eq, slice_length inside, htonl, loadBe32_toNat]

/-- The fragment test of the filter is the two of the parser. -/
theorem fragment_iff {buf : List UInt8} {p : Nat} (inside : p + 2 ≤ buf.length) :
    load16 o buf p &&& htons o 0x3FFF = 0 ↔ loadBe16 buf p &&& 0x2000 = 0 ∧ loadBe16 buf p &&& 0x1FFF = 0 := by
  have both : (0x3FFF : UInt16).toNat = (0x2000 : UInt16).toNat ||| (0x1FFF : UInt16).toNat := rfl
  have zero : load16 o buf p &&& htons o 0x3FFF = 0 ↔ loadBe16 buf p &&& 0x3FFF = 0 := by
    have same := htons_inj o (a := loadBe16 buf p &&& 0x3FFF) (b := 0)
    rwa [htons_zero, htons_and, ← load16_eq o inside] at same
  rw [zero, ← UInt16.toNat_inj, ← UInt16.toNat_inj, ← UInt16.toNat_inj, UInt16.toNat_and, UInt16.toNat_and, UInt16.toNat_and,
    both, Nat.and_or_distrib_left]
  exact Nat.or_eq_zero_iff

theorem xdpL3_eq (data : List UInt8) : xdpL3 o data = (ethernetPayload data).toOption := by
  unfold xdpL3 ethernetPayload kEth kVlan
  by_cases short : data.length < 14
  · rw [if_pos short, if_pos short]
    rfl
  · rw [if_neg short, if_neg short, load16_eq o (by omega)]
    simp only [htons_inj]
    split
    · by_cases cut : data.length < 14 + 4
      · rw [if_pos cut, if_pos cut]
        rfl
      · rw [if_neg cut, if_neg cut, load16_eq o (by omega)]
        simp only [ne_eq, htons_inj]
        split <;> rfl
    · simp only [ne_eq, htons_inj]
      split <;> rfl

/-- Headers of the feed from `ip` on, by the fields that both sides look at. -/
structure FeedHeaders (opt : XdpOptions) (data : List UInt8) (ip : Nat) : Prop where
  header : ip + 20 ≤ data.length
  ihl : ¬ byteAt data ip &&& 0x0F < 5
  protocol : byteAt data (ip + 9) = 17
  whole : loadBe16 data (ip + 6) &&& 0x2000 = 0 ∧ loadBe16 data (ip + 6) &&& 0x1FFF = 0
  udp : ip + (byteAt data ip &&& 0x0F).toNat * 4 + 8 ≤ data.length
  port : loadBe16 data (ip + (byteAt data ip &&& 0x0F).toNat * 4 + 2) = opt.dstPort
  group : opt.group ≠ 0 → loadBe32 data (ip + 16) = opt.group

variable {opt : XdpOptions} {data : List UInt8} {ip : Nat}

theorem xdpMatches_iff {udp : Nat} (header : ip + 20 ≤ data.length) (inside : udp + 8 ≤ data.length) :
    xdpMatches o (some (opt.cfg o)) data ip udp = true ↔
      loadBe16 data (udp + 2) = opt.dstPort ∧ (opt.group ≠ 0 → loadBe32 data (ip + 16) = opt.group) := by
  have any : (opt.cfg o).dstIp = 0 ↔ opt.group = 0 := by
    have same := htonl_inj o (a := opt.group) (b := 0)
    rwa [htonl_zero] at same
  have port : load16 o data (udp + 2) = (opt.cfg o).dstPort ↔ loadBe16 data (udp + 2) = opt.dstPort := by
    rw [load16_eq o (by omega)]
    exact htons_inj o
  have address : load32 o data (ip + 16) = (opt.cfg o).dstIp ↔ loadBe32 data (ip + 16) = opt.group := by
    rw [load32_eq o (by omega)]
    exact htonl_inj o
  unfold xdpMatches
  simp only [ne_eq, port, any, address]
  by_cases here : loadBe16 data (udp + 2) = opt.dstPort
  · simp [here, or_iff_not_imp_left]
  · simp [here]

theorem xdpHeaders_iff : xdpHeaders o (some (opt.cfg o)) data ip = true ↔ FeedHeaders opt data ip := by
  unfold xdpHeaders
  dsimp only
  constructor
  · intro redirected
    split at redirected
    · cases redirected
    · rename_i header
      split at redirected
      · cases redirected
      · rename_i fields
        split at redirected
        · cases redirected
        · rename_i whole
          split at redirected
          · cases redirected
          · rename_i udp
            obtain ⟨ihl, protocol⟩ := not_or.mp fields
            have header := Nat.le_of_not_lt header
            have udp := Nat.le_of_not_lt udp
            obtain ⟨port, group⟩ := (xdpMatches_iff o header udp).mp redirected
            have whole := (fragment_iff o (by omega)).mp (not_not.mp whole)
            exact ⟨header, ihl, not_not.mp protocol, whole, udp, port, group⟩
  · intro feed
    have header := feed.header
    have fields : ¬ (byteAt data ip &&& 0x0F < 5 ∨ byteAt data (ip + 9) ≠ 17) :=
      not_or.mpr ⟨feed.ihl, not_not.mpr feed.protocol⟩
    have whole := (@fragment_iff o data (ip + 6) (by omega)).mpr feed.whole
    rw [if_neg (Nat.not_lt_of_le header), if_neg fields, if_neg (not_not.mpr whole), if_neg (Nat.not_lt_of_le feed.udp)]
    exact (xdpMatches_iff o header feed.udp).mpr ⟨feed.port, feed.group⟩

theorem xdpUdpFilter_iff {xsksMap : UInt32 → Option UInt32} {ctx : XdpMd} :
    xdpUdpFilter o (some (opt.cfg o)) xsksMap ctx = .redirect ↔
      (∃ ip, ethernetPayload ctx.data = .ok ip ∧ FeedHeaders opt ctx.data ip) ∧ (xsksMap ctx.rxQueueIndex).isSome := by
  unfold xdpUdpFilter
  rw [xdpL3_eq]
  cases here : ethernetPayload ctx.data with
  | error e =>
    refine ⟨fun redirected => (by cases redirected), ?_⟩
    rintro ⟨⟨ip, ok, -⟩, -⟩
    cases ok
  | ok ip =>
    have headers := @xdpHeaders_iff o opt ctx.data ip
    change (if !xdpHeaders o (some (opt.cfg o)) ctx.data ip then XdpAction.pass
      else if (xsksMap ctx.rxQueueIndex).isSome then .redirect else .pass) = .redirect ↔ _
    constructor
    · intro redirected
      split at redirected
      · cases redirected
      · rename_i feed
        split at redirected
        · rename_i bound
          exact ⟨⟨ip, rfl, headers.mp (by simpa using feed)⟩, bound⟩
        · cases redirected
    · rintro ⟨⟨ip, ⟨⟩, feed⟩, bound⟩
      rw [headers.mpr feed, if_neg (by decide), if_pos bound]

/-- The header length in bytes. -/
theorem ihl_lt {b : UInt8} : b.toNat * 4 < kIpMin ↔ b < 5 := by
  rw [UInt8.lt_iff_toNat_lt, kIpMin]
  change _ ↔ b.toNat < 5
  omega

/-- A datagram of the feed has its headers. -/
theorem feedHeaders_of_parse {d : UdpDatagram} (ok : parseIpv4 data ip = .ok d) (accepts : opt.Accepts d) :
    FeedHeaders opt data ip := by
  unfold parseIpv4 at ok
  dsimp only at ok
  split at ok
  · cases ok
  · rename_i header
    split at ok
    · cases ok
    · rename_i version
      split at ok
      · cases ok
      · rename_i total
        split at ok
        · cases ok
        · rename_i whole
          split at ok
          · cases ok
          · rename_i protocol
            split at ok
            · cases ok
            · rename_i long
              split at ok
              · cases ok
              · obtain rfl := Except.ok.inj ok
                obtain ⟨-, ihl⟩ := not_or.mp version
                obtain ⟨more, offset⟩ := not_or.mp whole
                exact {
                  header := Nat.le_of_not_lt header
                  ihl := fun short => ihl (ihl_lt.mpr short)
                  protocol := not_not.mp protocol
                  whole := ⟨not_not.mp more, not_not.mp offset⟩
                  udp := by rw [kUdp] at long; omega
                  port := accepts.1
                  group := accepts.2 }

/-- On headers of the feed the parser finds its datagram or a length that is wrong. -/
theorem parse_feedHeaders (feed : FeedHeaders opt data ip) :
    (∃ d, parseIpv4 data ip = .ok d ∧ opt.Accepts d) ∨ parseIpv4 data ip = .error .truncated ∨
      parseIpv4 data ip = .error .badIpHeader ∨ parseIpv4 data ip = .error .badUdpLength := by
  have whole : ¬ (loadBe16 data (ip + 6) &&& 0x2000 ≠ 0 ∨ loadBe16 data (ip + 6) &&& 0x1FFF ≠ 0) :=
    not_or.mpr ⟨not_not.mpr feed.whole.1, not_not.mpr feed.whole.2⟩
  have header : ¬ data.length < ip + kIpMin := Nat.not_lt_of_le feed.header
  unfold parseIpv4
  dsimp only
  rw [if_neg header, if_neg whole, if_neg (not_not.mpr feed.protocol)]
  split
  · exact .inr (.inr (.inl rfl))
  · split
    · exact .inr (.inl rfl)
    · split
      · exact .inr (.inl rfl)
      · split
        · exact .inr (.inr (.inr rfl))
        · exact .inl ⟨_, rfl, feed.port, feed.group⟩

/-- The filter redirects every frame that the parser accepts as a datagram of the feed, and
of the frames it redirects the parser refuses only some with a wrong length or version. -/
theorem xdpUdpFilter_agrees (o : ByteOrder) (opt : XdpOptions) (xsksMap : UInt32 → Option UInt32) (ctx : XdpMd) :
    (∀ d, parseUdpFrame ctx.data = .ok d → opt.Accepts d → (xsksMap ctx.rxQueueIndex).isSome →
      xdpUdpFilter o (some (opt.cfg o)) xsksMap ctx = .redirect) ∧
    (xdpUdpFilter o (some (opt.cfg o)) xsksMap ctx = .redirect →
      (∃ d, parseUdpFrame ctx.data = .ok d ∧ opt.Accepts d) ∨ parseUdpFrame ctx.data = .error .truncated ∨
        parseUdpFrame ctx.data = .error .badIpHeader ∨ parseUdpFrame ctx.data = .error .badUdpLength) := by
  rw [xdpUdpFilter_iff]
  unfold parseUdpFrame
  constructor
  · intro d ok accepts bound
    cases here : ethernetPayload ctx.data with
    | error e =>
      rw [here] at ok
      cases ok
    | ok ip =>
      rw [here] at ok
      exact ⟨⟨ip, rfl, feedHeaders_of_parse ok accepts⟩, bound⟩
  · rintro ⟨⟨ip, here, feed⟩, -⟩
    rw [here]
    exact parse_feedHeaders feed

/-- A frame with one byte for port 26386 of the group 239.1.1.1. -/
def feedFrame : List UInt8 :=
  List.replicate 12 0 ++ [8, 0] ++ [0x45, 0, 0, 29, 0, 0, 0x40, 0, 1, 17, 0, 0, 10, 0, 0, 1, 239, 1, 1, 1] ++
    [0x67, 0x12, 0x67, 0x12, 0, 9, 0, 0] ++ [7]

theorem xdpUdpFilter_agrees_sample :
    xdpUdpFilter .little (some (XdpOptions.cfg ⟨0x6712, 0xEF010101⟩ .little)) (fun _ => some 3) ⟨feedFrame, 0⟩ = .redirect :=
  (xdpUdpFilter_agrees .little ⟨0x6712, 0xEF010101⟩ (fun _ => some 3) ⟨feedFrame, 0⟩).1
    ⟨[7], 0x0A000001, 0xEF010101, 0x6712, 0x6712⟩ (by rfl) ⟨rfl, fun _ => rfl⟩ rfl

end Itch
