import Itch.Lib.ByteOrder
import Itch.Lib.Shuffle
import Itch.Messages
import Itch.Store

namespace Itch

open Shuffle

/-- The book fields of an Add Order, as the 32 bytes of a struct on a little-endian machine. -/
structure AddOrderFields where
  ref : UInt64
  timestamp : UInt64
  shares : UInt32
  price : UInt32
  locate : UInt16
  tracking : UInt16
  side : UInt8
  zero_ : Vector UInt8 3
  deriving DecidableEq

namespace AddOrderFields

/-- The bytes of a number as the machine stores it. -/
def word (w n : Nat) : List UInt8 := ByteOrder.little.arrange (BigEndian.encode w n)

/-- The bytes of the struct in memory. -/
def image (f : AddOrderFields) : List UInt8 :=
  word 8 f.ref.toNat ++ (word 8 f.timestamp.toNat ++ (word 4 f.shares.toNat ++ (word 4 f.price.toNat ++
    (word 2 f.locate.toNat ++ (word 2 f.tracking.toNat ++ ([f.side] ++ f.zero_.toList))))))

/-- The struct that has these bytes. -/
def ofImage (bytes : List UInt8) : AddOrderFields where
  ref := .ofNat (ByteOrder.little.load (slice bytes 0 8))
  timestamp := .ofNat (ByteOrder.little.load (slice bytes 8 8))
  shares := .ofNat (ByteOrder.little.load (slice bytes 16 4))
  price := .ofNat (ByteOrder.little.load (slice bytes 20 4))
  locate := .ofNat (ByteOrder.little.load (slice bytes 24 2))
  tracking := .ofNat (ByteOrder.little.load (slice bytes 26 2))
  side := byteAt bytes 28
  zero_ := #v[byteAt bytes 29, byteAt bytes 30, byteAt bytes 31]

/-- The fields that a decoded message gives. -/
def ofMessage (m : MsgAddOrder) : AddOrderFields where
  ref := m.ref
  timestamp := m.timestamp
  shares := m.shares
  price := m.price
  locate := m.locate
  tracking := m.tracking
  side := m.side
  zero_ := .replicate 3 0

end AddOrderFields

/-- The wire byte that feeds each output byte, or -1 for zero. -/
def kAddOrderSrc : List Int :=
  [18, 17, 16, 15, 14, 13, 12, 11,
   10, 9, 8, 7, 6, 5, -1, -1,
   23, 22, 21, 20,
   35, 34, 33, 32,
   2, 1,
   4, 3,
   19,
   -1, -1, -1]

/-- The control for one input chunk and the 16 output bytes from `outBase` on. -/
def shuffleMask (chunk outBase : Nat) : List Int8 :=
  (List.range 16).map fun k =>
    let src := kAddOrderSrc.getD (outBase + k) (-1)
    if 0 ≤ src ∧ src / 16 = chunk then .ofInt (src % 16) else -128

/-- A 256-bit control: the low lane builds the low half of the output. -/
def kMask256 (chunk : Nat) : List Int8 := shuffleMask chunk 0 ++ shuffleMask chunk 16

def Scalar.decodeAddOrder (msg : List UInt8) : AddOrderFields where
  ref := loadBe64 msg 11
  timestamp := loadBe48Overread msg 5
  shares := loadBe32 msg 20
  price := loadBe32 msg 32
  locate := loadBe16 msg 1
  tracking := loadBe16 msg 3
  side := byteAt msg 19
  zero_ := .replicate 3 0

/-- The two registers stored over the struct. The low half needs no byte of the third chunk. -/
def Ssse3.stored (msg : List UInt8) : List UInt8 :=
  let c0 := slice msg 0 16
  let c1 := slice msg 16 16
  let c2 := slice msg 32 16
  let lo := orBytes (shuffleEpi8 c0 (shuffleMask 0 0)) (shuffleEpi8 c1 (shuffleMask 1 0))
  let hi := orBytes (orBytes (shuffleEpi8 c0 (shuffleMask 0 16)) (shuffleEpi8 c1 (shuffleMask 1 16)))
    (shuffleEpi8 c2 (shuffleMask 2 16))
  lo ++ hi

def Ssse3.decodeAddOrder (msg : List UInt8) : AddOrderFields := .ofImage (stored msg)

namespace Avx2

/-- The same 16 bytes in both lanes. -/
def broadcast (chunk : List UInt8) : List UInt8 := chunk ++ chunk

/-- The 256-bit shuffle: two shuffles that do not see each other's lane. -/
def shuffleEpi8Lanes (a : List UInt8) (control : List Int8) : List UInt8 :=
  shuffleEpi8 (a.take 16) (control.take 16) ++ shuffleEpi8 (a.drop 16) (control.drop 16)

/-- The register stored over the struct. -/
def stored (msg : List UInt8) : List UInt8 :=
  let c0 := broadcast (slice msg 0 16)
  let c1 := broadcast (slice msg 16 16)
  let c2 := broadcast (slice msg 32 16)
  orBytes (orBytes (shuffleEpi8Lanes c0 (kMask256 0)) (shuffleEpi8Lanes c1 (kMask256 1)))
    (shuffleEpi8Lanes c2 (kMask256 2))

def decodeAddOrder (msg : List UInt8) : AddOrderFields := .ofImage (stored msg)

end Avx2

namespace AddOrderFields

theorem word_length (w n : Nat) : (word w n).length = w := by
  rw [word, ByteOrder.arrange_length, BigEndian.encode_length]

theorem load_word {w n : Nat} (small : n < 256 ^ w) : ByteOrder.little.load (word w n) = n := by
  rw [word, ByteOrder.load, ByteOrder.arrange, ByteOrder.arrange, List.reverse_reverse, BigEndian.decode_encode_of_lt small]

/-- The word of a big-endian field is its bytes in the other order. -/
theorem word_decode {bytes : List UInt8} {w : Nat} (length : bytes.length = w) :
    word w (BigEndian.decode bytes) = bytes.reverse := by
  rw [word, ← length, BigEndian.encode_decode, ByteOrder.arrange]

/-- A field of six bytes in a word of eight is extended by zeros. -/
theorem word_extended {bytes : List UInt8} (length : bytes.length = 6) :
    word 8 (BigEndian.decode bytes) = bytes.reverse ++ [0, 0] := by
  have small := BigEndian.decode_lt bytes
  rw [length] at small
  have high : BigEndian.encode 8 (BigEndian.decode bytes) = [0, 0] ++ bytes := by
    rw [BigEndian.encode_append 2 6, Nat.div_eq_of_lt small, ← length, BigEndian.encode_decode]
    rfl
  rw [word, high, ByteOrder.arrange, List.reverse_append]
  rfl

section Skip

variable {w n p : Nat} (back : List UInt8)

theorem slice_word : slice (word w n ++ back) 0 w = word w n := slice_front (word_length w n) back

theorem slice_past_word (after : w ≤ p) (width : Nat) : slice (word w n ++ back) p width = slice back (p - w) width :=
  slice_past (word_length w n) after back width

theorem byteAt_past_word (after : w ≤ p) : byteAt (word w n ++ back) p = byteAt back (p - w) :=
  byteAt_past (word_length w n) after back

end Skip

section Fields

variable (f : AddOrderFields)

theorem slice_ref : slice f.image 0 8 = word 8 f.ref.toNat := slice_word _

theorem slice_timestamp : slice f.image 8 8 = word 8 f.timestamp.toNat := by
  rw [image, slice_past_word _ (by omega)]
  exact slice_word _

theorem slice_shares : slice f.image 16 4 = word 4 f.shares.toNat := by
  rw [image, slice_past_word _ (by omega), slice_past_word _ (by omega)]
  exact slice_word _

theorem slice_price : slice f.image 20 4 = word 4 f.price.toNat := by
  rw [image, slice_past_word _ (by omega), slice_past_word _ (by omega), slice_past_word _ (by omega)]
  exact slice_word _

theorem slice_locate : slice f.image 24 2 = word 2 f.locate.toNat := by
  rw [image, slice_past_word _ (by omega), slice_past_word _ (by omega), slice_past_word _ (by omega),
    slice_past_word _ (by omega)]
  exact slice_word _

theorem slice_tracking : slice f.image 26 2 = word 2 f.tracking.toNat := by
  rw [image, slice_past_word _ (by omega), slice_past_word _ (by omega), slice_past_word _ (by omega),
    slice_past_word _ (by omega), slice_past_word _ (by omega)]
  exact slice_word _

theorem byteAt_last (k : Nat) : byteAt f.image (28 + k) = byteAt ([f.side] ++ f.zero_.toList) k := by
  rw [image, byteAt_past_word _ (by omega), byteAt_past_word _ (by omega), byteAt_past_word _ (by omega),
    byteAt_past_word _ (by omega), byteAt_past_word _ (by omega), byteAt_past_word _ (by omega)]
  congr 1
  omega

theorem ofImage_image : ofImage f.image = f := by
  have padding : #v[f.zero_.toList.getD 0 0, f.zero_.toList.getD 1 0, f.zero_.toList.getD 2 0] = f.zero_ := by
    ext i inside
    obtain rfl | rfl | rfl : i = 0 ∨ i = 1 ∨ i = 2 := by omega
    all_goals simp
  rw [ofImage, slice_ref, slice_timestamp, slice_shares, slice_price, slice_locate, slice_tracking, load_word f.ref.toNat_lt,
    load_word f.timestamp.toNat_lt, load_word f.shares.toNat_lt, load_word f.price.toNat_lt, load_word f.locate.toNat_lt,
    load_word f.tracking.toNat_lt, byteAt_last f 0, byteAt_last f 1, byteAt_last f 2, byteAt_last f 3]
  simp only [UInt64.ofNat_toNat, UInt32.ofNat_toNat, UInt16.ofNat_toNat]
  change { f with zero_ := #v[f.zero_.toList.getD 0 0, f.zero_.toList.getD 1 0, f.zero_.toList.getD 2 0] } = f
  rw [padding]

end Fields

end AddOrderFields

open AddOrderFields

section Table

variable {msg : List UInt8} (length : msg.length = 48)
include length

/-- The table reverses each field in place, with zeros after the timestamp and at the end. -/
theorem gather_kAddOrderSrc : gather msg kAddOrderSrc = (Scalar.decodeAddOrder msg).image := by
  have table : kAddOrderSrc = reversed 11 8 ++ (reversed 5 6 ++ [-1, -1] ++ (reversed 20 4 ++ (reversed 32 4 ++
      (reversed 1 2 ++ (reversed 3 2 ++ ([19] ++ [-1, -1, -1])))))) := by decide
  have field : ∀ {p w}, p + w ≤ 48 → gather msg (reversed p w) = word w (BigEndian.decode (slice msg p w)) := by
    intro p w inside
    rw [gather_reversed (by omega), word_decode (slice_length (by omega)), slice]
  have stamp : gather msg (reversed 5 6 ++ [-1, -1]) = word 8 (BigEndian.decode (slice msg 5 6)) := by
    rw [gather_append, gather_reversed (by omega), word_extended (slice_length (by omega)), slice]
    rfl
  rw [table, gather_append, field (by omega), gather_append, stamp, gather_append, field (by omega), gather_append,
    field (by omega), gather_append, field (by omega), gather_append, field (by omega), gather_append, image,
    Scalar.decodeAddOrder, loadBe64_toNat, loadBe48Overread_toNat (by omega) (by omega), loadBe32_toNat, loadBe32_toNat,
    loadBe16_toNat, loadBe16_toNat]
  rfl

end Table

section Chunks

variable (msg : List UInt8) (sources : List Int)

theorem two_chunks : orBytes (shuffleEpi8 (slice msg 0 16) (sources.map (chunkControl 0)))
    (shuffleEpi8 (slice msg 16 16) (sources.map (chunkControl 1))) = gatherBelow msg 2 sources := by
  rw [← gatherBelow_succ, ← gatherBelow_one]
  rfl

theorem three_chunks : orBytes (orBytes (shuffleEpi8 (slice msg 0 16) (sources.map (chunkControl 0)))
    (shuffleEpi8 (slice msg 16 16) (sources.map (chunkControl 1))))
    (shuffleEpi8 (slice msg 32 16) (sources.map (chunkControl 2))) = gatherBelow msg 3 sources := by
  rw [two_chunks]
  exact gatherBelow_succ msg 2 sources

end Chunks

theorem shuffleMask_low (chunk : Nat) : shuffleMask chunk 0 = (kAddOrderSrc.take 16).map (chunkControl chunk) := rfl

theorem shuffleMask_high (chunk : Nat) : shuffleMask chunk 16 = (kAddOrderSrc.drop 16).map (chunkControl chunk) := rfl

theorem gather_halves (msg : List UInt8) :
    gather msg (kAddOrderSrc.take 16) ++ gather msg (kAddOrderSrc.drop 16) = gather msg kAddOrderSrc := by
  rw [← gather_append, List.take_append_drop]

theorem Ssse3.stored_eq (msg : List UInt8) : Ssse3.stored msg = gather msg kAddOrderSrc := by
  rw [← gather_halves, stored, shuffleMask_low, shuffleMask_low, shuffleMask_high, shuffleMask_high, shuffleMask_high,
    two_chunks, three_chunks, gatherBelow_all (by decide), gatherBelow_all (by decide)]

namespace Avx2

theorem shuffleEpi8Lanes_broadcast {chunk : List UInt8} (length : chunk.length = 16) (c : Nat) :
    shuffleEpi8Lanes (broadcast chunk) (kMask256 c) =
      shuffleEpi8 chunk (shuffleMask c 0) ++ shuffleEpi8 chunk (shuffleMask c 16) := by
  have low : (shuffleMask c 0).length = 16 := by simp [shuffleMask]
  rw [shuffleEpi8Lanes, broadcast, kMask256, List.take_left' length, List.drop_left' length, List.take_left' low,
    List.drop_left' low]

/-- The lanes of the results are joined like the shuffles of the lanes. -/
theorem orBytes_append {a b c d : List UInt8} (same : a.length = c.length) :
    orBytes (a ++ b) (c ++ d) = orBytes a c ++ orBytes b d := List.zipWith_append same

theorem stored_eq {msg : List UInt8} (length : msg.length = 48) : stored msg = gather msg kAddOrderSrc := by
  have lane : ∀ {p}, p + 16 ≤ 48 → (slice msg p 16).length = 16 := fun inside => slice_length (by omega)
  have lengths : ∀ p q c d : Nat, (shuffleEpi8 (slice msg p 16) (shuffleMask c 0)).length =
      (shuffleEpi8 (slice msg q 16) (shuffleMask d 0)).length := by
    intro p q c d
    simp [shuffleEpi8_length, shuffleMask]
  have lengths' : (orBytes (shuffleEpi8 (slice msg 0 16) (shuffleMask 0 0)) (shuffleEpi8 (slice msg 16 16) (shuffleMask 1 0))).length =
      (shuffleEpi8 (slice msg 32 16) (shuffleMask 2 0)).length := by
    simp [orBytes, shuffleEpi8_length, shuffleMask]
  rw [← gather_halves, stored, shuffleEpi8Lanes_broadcast (lane (by omega)), shuffleEpi8Lanes_broadcast (lane (by omega)),
    shuffleEpi8Lanes_broadcast (lane (by omega)), orBytes_append (lengths ..), orBytes_append lengths', shuffleMask_low,
    shuffleMask_low, shuffleMask_low, shuffleMask_high, shuffleMask_high, shuffleMask_high, three_chunks, three_chunks,
    gatherBelow_all (by decide), gatherBelow_all (by decide)]

end Avx2

/-- The loads stay inside the message. -/
theorem Scalar.decodeAddOrder_eq {msg : List UInt8} (length : msg.length = 48) :
    Scalar.decodeAddOrder msg = ofMessage (.decode (msg.take 36)) := by
  have inside : ∀ {p w}, p + w ≤ 36 → slice (msg.take 36) p w = slice msg p w := by
    intro p w fits
    have front : (msg.take 36).length = 36 := List.length_take_of_le (by omega)
    rw [← slice_append_left (msg.drop 36) (by omega), List.take_append_drop]
  have side : byteAt (msg.take 36) 19 = byteAt msg 19 := by
    rw [byteAt, byteAt, List.getD_eq_getElem?_getD, List.getD_eq_getElem?_getD, List.getElem?_take_of_lt (by omega)]
  simp only [Scalar.decodeAddOrder, ofMessage, MsgAddOrder.decode, Header.decode, loadBe48Overread, loadBe64, loadBe32, loadBe16]
  rw [inside (by omega), inside (by omega), inside (by omega), inside (by omega), inside (by omega), inside (by omega),
    side]

theorem stored_message {msg : List UInt8} (length : msg.length = 48) :
    Ssse3.stored msg = (ofMessage (.decode (msg.take 36))).image ∧ Avx2.stored msg = (ofMessage (.decode (msg.take 36))).image := by
  rw [Ssse3.stored_eq, Avx2.stored_eq length, gather_kAddOrderSrc length, Scalar.decodeAddOrder_eq length]
  exact ⟨rfl, rfl⟩

theorem image_length (f : AddOrderFields) : f.image.length = 32 := by
  simp [image, word_length]

/-- The three decoders return the same 32 bytes, those of the fields of the message. -/
theorem decoders_agree {msg : List UInt8} (length : msg.length = 48) :
    (Ssse3.stored msg).length = 32 ∧ Ssse3.stored msg = (Scalar.decodeAddOrder msg).image ∧
      Avx2.stored msg = (Scalar.decodeAddOrder msg).image ∧
      Ssse3.decodeAddOrder msg = ofMessage (.decode (msg.take 36)) ∧
      Avx2.decodeAddOrder msg = ofMessage (.decode (msg.take 36)) ∧
      Scalar.decodeAddOrder msg = ofMessage (.decode (msg.take 36)) ∧
      ∀ other : List UInt8, other.length = 48 → other.take 36 = msg.take 36 →
        Ssse3.stored other = Ssse3.stored msg ∧ Avx2.stored other = Avx2.stored msg ∧
          Scalar.decodeAddOrder other = Scalar.decodeAddOrder msg := by
  have scalar := Scalar.decodeAddOrder_eq length
  obtain ⟨ssse3, avx2⟩ := stored_message length
  refine ⟨?_, ?_, ?_, ?_, ?_, scalar, ?_⟩
  · rw [ssse3, image_length]
  · rw [ssse3, scalar]
  · rw [avx2, scalar]
  · rw [Ssse3.decodeAddOrder, ssse3, ofImage_image]
  · rw [Avx2.decodeAddOrder, avx2, ofImage_image]
  · intro other length' same
    obtain ⟨ssse3', avx2'⟩ := stored_message length'
    rw [ssse3', avx2', ssse3, avx2, Scalar.decodeAddOrder_eq length', scalar, same]
    exact ⟨rfl, rfl, rfl⟩

/-- The message is followed by bytes that are not zero. -/
theorem decoders_agree_sample :
    Ssse3.decodeAddOrder ((List.range 48).map UInt8.ofNat) = Scalar.decodeAddOrder ((List.range 48).map UInt8.ofNat) ∧
      Avx2.stored ((List.range 48).map UInt8.ofNat) = Avx2.stored ((List.range 36).map UInt8.ofNat ++ List.replicate 12 0) := by
  obtain ⟨-, -, -, ssse3, -, scalar, others⟩ :=
    @decoders_agree ((List.range 48).map UInt8.ofNat) (by rw [List.length_map, List.length_range])
  have tail := others ((List.range 36).map UInt8.ofNat ++ List.replicate 12 0) (by simp) (by decide)
  exact ⟨ssse3.trans scalar.symm, tail.2.1.symm⟩

end Itch
