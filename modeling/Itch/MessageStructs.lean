import Itch.MessageTypes

namespace Itch

open MessageType

/-! The structures of the messages that the book needs hold what their types decode. -/

def MsgSystemEvent.of (m : Struct systemEvent) : MsgSystemEvent where
  toHeader := m.toHeader
  eventCode := m.values.1

def MsgStockDirectory.of (m : Struct stockDirectory) : MsgStockDirectory :=
  let (stock, marketCategory, financialStatus, roundLotSize, roundLotsOnly, issueClassification, issueSubtype, authenticity,
    shortSaleThreshold, ipoFlag, luldRefPriceTier, etpFlag, etpLeverageFactor, inverseIndicator, _) := m.values
  { toHeader := m.toHeader, stock := List.ofFn stock, marketCategory, financialStatus, roundLotSize, roundLotsOnly,
    issueClassification, issueSubtype := List.ofFn issueSubtype, authenticity, shortSaleThreshold, ipoFlag,
    luldRefPriceTier, etpFlag, etpLeverageFactor, inverseIndicator }

def MsgAddOrder.of (m : Struct addOrder) : MsgAddOrder :=
  let (ref, side, shares, stock, price, _) := m.values
  { toHeader := m.toHeader, ref, side, shares, stock := List.ofFn stock, price }

def MsgAddOrderMpid.of (m : Struct addOrderMpid) : MsgAddOrderMpid :=
  let (ref, side, shares, stock, price, attribution, _) := m.values
  { toHeader := m.toHeader, ref, side, shares, stock := List.ofFn stock, price, attribution := List.ofFn attribution }

def MsgOrderExecuted.of (m : Struct orderExecuted) : MsgOrderExecuted :=
  let (ref, executedShares, matchNumber, _) := m.values
  { toHeader := m.toHeader, ref, executedShares, matchNumber }

def MsgOrderExecutedWithPrice.of (m : Struct orderExecutedWithPrice) : MsgOrderExecutedWithPrice :=
  let (ref, executedShares, matchNumber, printable, executionPrice, _) := m.values
  { toHeader := m.toHeader, ref, executedShares, matchNumber, printable, executionPrice }

def MsgOrderCancel.of (m : Struct orderCancel) : MsgOrderCancel :=
  let (ref, cancelledShares, _) := m.values
  { toHeader := m.toHeader, ref, cancelledShares }

def MsgOrderDelete.of (m : Struct orderDelete) : MsgOrderDelete where
  toHeader := m.toHeader
  ref := m.values.1

def MsgOrderReplace.of (m : Struct orderReplace) : MsgOrderReplace :=
  let (originalRef, newRef, shares, price, _) := m.values
  { toHeader := m.toHeader, originalRef, newRef, shares, price }

/-- The message that the structure of a type makes. -/
def Message.of (M : MessageType) (p : List UInt8) : Message :=
  if M.kType = 'S' then .systemEvent (.of (MessageType.systemEvent.decode p))
  else if M.kType = 'R' then .stockDirectory (.of (MessageType.stockDirectory.decode p))
  else if M.kType = 'A' then .book (.addOrder (.of (addOrder.decode p)))
  else if M.kType = 'F' then .book (.addOrderMpid (.of (addOrderMpid.decode p)))
  else if M.kType = 'E' then .book (.orderExecuted (.of (orderExecuted.decode p)))
  else if M.kType = 'C' then .book (.orderExecutedWithPrice (.of (orderExecutedWithPrice.decode p)))
  else if M.kType = 'X' then .book (.orderCancel (.of (orderCancel.decode p)))
  else if M.kType = 'D' then .book (.orderDelete (.of (orderDelete.decode p)))
  else if M.kType = 'U' then .book (.orderReplace (.of (orderReplace.decode p)))
  else .other p

/-- An `Alpha` member holds the slice of its bytes. -/
theorem alpha_slice (n : Nat) [NeZero n] {p : List UInt8} (offset : Nat) (inside : offset + n ≤ p.length) :
    slice p offset n = List.ofFn (n := n) (decodeValue p offset (Alpha n)) :=
  (alpha_bytes inside).symm

theorem MsgStockDirectory.decode_eq {p : List UInt8} (length : p.length = 39) :
    MsgStockDirectory.decode p = .of (MessageType.stockDirectory.decode p) := by
  have stock := alpha_slice 8 11 (p := p) (by omega)
  have subtype := alpha_slice 2 27 (p := p) (by omega)
  rw [decode, stock, subtype]
  rfl

theorem MsgAddOrder.decode_eq {p : List UInt8} (length : p.length = 36) : MsgAddOrder.decode p = .of (addOrder.decode p) := by
  have stock := alpha_slice 8 24 (p := p) (by omega)
  rw [decode, stock]
  rfl

theorem MsgAddOrderMpid.decode_eq {p : List UInt8} (length : p.length = 40) :
    MsgAddOrderMpid.decode p = .of (addOrderMpid.decode p) := by
  have stock := alpha_slice 8 24 (p := p) (by omega)
  have attribution := alpha_slice 4 36 (p := p) (by omega)
  rw [decode, MsgAddOrder.decode, stock, attribution]
  rfl

/-- The decoder that the dispatch table picks is the codec of the type. -/
theorem Message.decode_eq {M : MessageType} (member : M ∈ all) {p : List UInt8} (length : p.length = M.kLength)
    (type : byteAt p 0 = ascii M.kType) : Message.decode p = Message.of M p := by
  unfold Message.decode
  rw [type]
  fin_cases member
  case «1» => exact congrArg Message.stockDirectory (MsgStockDirectory.decode_eq length)
  case «10» => exact congrArg (Message.book ∘ .addOrder) (MsgAddOrder.decode_eq length)
  case «11» => exact congrArg (Message.book ∘ .addOrderMpid) (MsgAddOrderMpid.decode_eq length)
  all_goals rfl

end Itch
