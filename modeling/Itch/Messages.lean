import Itch.Bytes

namespace Itch

def ascii (c : Char) : UInt8 := UInt8.ofNat c.toNat

def byteAt (p : List UInt8) (i : Nat) : UInt8 := p.getD i 0

theorem byteAt_skip {front : List UInt8} {i : Nat} (after : front.length ≤ i) (back : List UInt8) :
    byteAt (front ++ back) i = byteAt back (i - front.length) := by
  rw [byteAt, byteAt, List.getD_eq_getElem?_getD, List.getElem?_append_right after, List.getD_eq_getElem?_getD]

theorem byteAt_past {front : List UInt8} {w i : Nat} (length : front.length = w) (after : w ≤ i) (back : List UInt8) :
    byteAt (front ++ back) i = byteAt back (i - w) := by
  subst length
  exact byteAt_skip after back

/-- The fields common to every message. -/
structure Header where
  locate : UInt16 := 0
  tracking : UInt16 := 0
  timestamp : UInt64 := 0
  deriving DecidableEq

def Header.decode (p : List UInt8) : Header where
  locate := loadBe16 p 1
  tracking := loadBe16 p 3
  timestamp := loadBe48Overread p 5

def Header.encode (type : Char) (m : Header) : List UInt8 :=
  [ascii type] ++ BigEndian.encode 2 m.locate.toNat ++ BigEndian.encode 2 m.tracking.toNat ++
    BigEndian.encode 6 m.timestamp.toNat

theorem Header.encode_length (type : Char) (m : Header) : (m.encode type).length = 11 := by
  simp [Header.encode]

structure MsgSystemEvent extends Header where
  eventCode : UInt8 := 0
  deriving DecidableEq

def MsgSystemEvent.decode (p : List UInt8) : MsgSystemEvent where
  toHeader := .decode p
  eventCode := byteAt p 11

structure MsgStockDirectory extends Header where
  stock : List UInt8 := []
  marketCategory : UInt8 := 0
  financialStatus : UInt8 := 0
  roundLotSize : UInt32 := 0
  roundLotsOnly : UInt8 := 0
  issueClassification : UInt8 := 0
  issueSubtype : List UInt8 := []
  authenticity : UInt8 := 0
  shortSaleThreshold : UInt8 := 0
  ipoFlag : UInt8 := 0
  luldRefPriceTier : UInt8 := 0
  etpFlag : UInt8 := 0
  etpLeverageFactor : UInt32 := 0
  inverseIndicator : UInt8 := 0
  deriving DecidableEq

def MsgStockDirectory.decode (p : List UInt8) : MsgStockDirectory where
  toHeader := .decode p
  stock := slice p 11 8
  marketCategory := byteAt p 19
  financialStatus := byteAt p 20
  roundLotSize := loadBe32 p 21
  roundLotsOnly := byteAt p 25
  issueClassification := byteAt p 26
  issueSubtype := slice p 27 2
  authenticity := byteAt p 29
  shortSaleThreshold := byteAt p 30
  ipoFlag := byteAt p 31
  luldRefPriceTier := byteAt p 32
  etpFlag := byteAt p 33
  etpLeverageFactor := loadBe32 p 34
  inverseIndicator := byteAt p 38

structure MsgAddOrder extends Header where
  ref : UInt64 := 0
  side : UInt8 := 0
  shares : UInt32 := 0
  stock : List UInt8 := []
  price : UInt32 := 0
  deriving DecidableEq

def MsgAddOrder.decode (p : List UInt8) : MsgAddOrder where
  toHeader := .decode p
  ref := loadBe64 p 11
  side := byteAt p 19
  shares := loadBe32 p 20
  stock := slice p 24 8
  price := loadBe32 p 32

def MsgAddOrder.encode (m : MsgAddOrder) : List UInt8 :=
  m.toHeader.encode 'A' ++ (BigEndian.encode 8 m.ref.toNat ++ ([m.side] ++ (BigEndian.encode 4 m.shares.toNat ++
    (m.stock ++ BigEndian.encode 4 m.price.toNat))))

theorem MsgAddOrder.encode_length {m : MsgAddOrder} (stock : m.stock.length = 8) : m.encode.length = 36 := by
  simp [MsgAddOrder.encode, Header.encode_length, stock]

/-- What an encoded message says about its order. -/
theorem MsgAddOrder.decode_encode {m : MsgAddOrder} (stock : m.stock.length = 8) :
    (decode m.encode).locate = m.locate ∧ (decode m.encode).ref = m.ref ∧ (decode m.encode).side = m.side ∧
      (decode m.encode).shares = m.shares ∧ (decode m.encode).price = m.price := by
  have header := m.toHeader.encode_length 'A'
  have ref := BigEndian.encode_length 8 m.ref.toNat
  have side : [m.side].length = 1 := rfl
  have shares := BigEndian.encode_length 4 m.shares.toNat
  have price := BigEndian.encode_length 4 m.price.toNat
  refine ⟨loadBe16_of_slice ?_, loadBe64_of_slice ?_, ?_, loadBe32_of_slice ?_, loadBe32_of_slice ?_⟩
  · rw [encode, slice_append_left _ (by omega), Header.encode, List.append_assoc, List.append_assoc,
      slice_skip (Nat.le_refl 1)]
    exact slice_front (BigEndian.encode_length ..) _
  · rw [encode, slice_past header (by omega)]
    exact slice_front ref _
  · change byteAt m.encode 19 = m.side
    rw [encode, byteAt_past header (by omega), byteAt_past ref (by omega)]
    rfl
  · rw [encode, slice_past header (by omega), slice_past ref (by omega), slice_past side (by omega)]
    exact slice_front shares _
  · rw [encode, slice_past header (by omega), slice_past ref (by omega), slice_past side (by omega),
      slice_past shares (by omega), slice_past stock (by omega)]
    exact List.take_of_length_le price.le

structure MsgAddOrderMpid extends MsgAddOrder where
  attribution : List UInt8 := []
  deriving DecidableEq

def MsgAddOrderMpid.decode (p : List UInt8) : MsgAddOrderMpid where
  toMsgAddOrder := .decode p
  attribution := slice p 36 4

structure MsgOrderExecuted extends Header where
  ref : UInt64 := 0
  executedShares : UInt32 := 0
  matchNumber : UInt64 := 0
  deriving DecidableEq

def MsgOrderExecuted.decode (p : List UInt8) : MsgOrderExecuted where
  toHeader := .decode p
  ref := loadBe64 p 11
  executedShares := loadBe32 p 19
  matchNumber := loadBe64 p 23

structure MsgOrderExecutedWithPrice extends MsgOrderExecuted where
  printable : UInt8 := 0
  executionPrice : UInt32 := 0
  deriving DecidableEq

def MsgOrderExecutedWithPrice.decode (p : List UInt8) : MsgOrderExecutedWithPrice where
  toMsgOrderExecuted := .decode p
  printable := byteAt p 31
  executionPrice := loadBe32 p 32

structure MsgOrderCancel extends Header where
  ref : UInt64 := 0
  cancelledShares : UInt32 := 0
  deriving DecidableEq

def MsgOrderCancel.decode (p : List UInt8) : MsgOrderCancel where
  toHeader := .decode p
  ref := loadBe64 p 11
  cancelledShares := loadBe32 p 19

structure MsgOrderDelete extends Header where
  ref : UInt64 := 0
  deriving DecidableEq

def MsgOrderDelete.decode (p : List UInt8) : MsgOrderDelete where
  toHeader := .decode p
  ref := loadBe64 p 11

structure MsgOrderReplace extends Header where
  originalRef : UInt64 := 0
  newRef : UInt64 := 0
  shares : UInt32 := 0
  price : UInt32 := 0
  deriving DecidableEq

def MsgOrderReplace.decode (p : List UInt8) : MsgOrderReplace where
  toHeader := .decode p
  originalRef := loadBe64 p 11
  newRef := loadBe64 p 19
  shares := loadBe32 p 27
  price := loadBe32 p 31

/-- Type and length of all messages. -/
def allMessages : List (Char × Nat) :=
  [('S', 12), ('R', 39), ('H', 25), ('Y', 20), ('L', 26), ('V', 35), ('W', 12), ('K', 28), ('J', 35), ('h', 21),
    ('A', 36), ('F', 40), ('E', 31), ('C', 36), ('X', 23), ('D', 19), ('U', 35), ('P', 44), ('Q', 40), ('B', 19),
    ('I', 50), ('N', 20), ('O', 48)]

/-- The length that messages of a type have, 0 for the types that are not defined. -/
def kMessageLength (type : UInt8) : Nat := ((allMessages.find? fun m => ascii m.1 = type).map Prod.snd).getD 0

/-- The messages that change a book. -/
inductive BookMessage where
  | addOrder (m : MsgAddOrder)
  | addOrderMpid (m : MsgAddOrderMpid)
  | orderExecuted (m : MsgOrderExecuted)
  | orderExecutedWithPrice (m : MsgOrderExecutedWithPrice)
  | orderCancel (m : MsgOrderCancel)
  | orderDelete (m : MsgOrderDelete)
  | orderReplace (m : MsgOrderReplace)

def BookMessage.header : BookMessage → Header
  | addOrder m => m.toHeader
  | addOrderMpid m => m.toHeader
  | orderExecuted m => m.toHeader
  | orderExecutedWithPrice m => m.toHeader
  | orderCancel m => m.toHeader
  | orderDelete m => m.toHeader
  | orderReplace m => m.toHeader

/-- A decoded message. Of the types that touch no order and no book only the bytes
are kept, for whoever asks for them to decode. -/
inductive Message where
  | systemEvent (m : MsgSystemEvent)
  | stockDirectory (m : MsgStockDirectory)
  | book (m : BookMessage)
  | other (p : List UInt8)

/-- The decoder that the dispatch table picks for the type byte. -/
def Message.decode (p : List UInt8) : Message :=
  let type := byteAt p 0
  if type = ascii 'S' then .systemEvent (.decode p)
  else if type = ascii 'R' then .stockDirectory (.decode p)
  else if type = ascii 'A' then .book (.addOrder (.decode p))
  else if type = ascii 'F' then .book (.addOrderMpid (.decode p))
  else if type = ascii 'E' then .book (.orderExecuted (.decode p))
  else if type = ascii 'C' then .book (.orderExecutedWithPrice (.decode p))
  else if type = ascii 'X' then .book (.orderCancel (.decode p))
  else if type = ascii 'D' then .book (.orderDelete (.decode p))
  else if type = ascii 'U' then .book (.orderReplace (.decode p))
  else .other p

def Message.header : Message → Header
  | systemEvent m => m.toHeader
  | stockDirectory m => m.toHeader
  | book m => m.header
  | other p => .decode p

theorem Message.decode_add (m : MsgAddOrder) : Message.decode m.encode = .book (.addOrder (.decode m.encode)) := rfl

/-- Every message starts with the header. -/
theorem Message.header_decode (p : List UInt8) : (Message.decode p).header = .decode p := by
  unfold Message.decode
  dsimp only
  repeat' split
  all_goals rfl

end Itch
