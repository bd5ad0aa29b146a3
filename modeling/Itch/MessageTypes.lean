import Itch.CodecFields
import Mathlib.Tactic.FinCases

namespace Itch

def Alpha (n : Nat) [NeZero n] : FieldType := .alpha n (NeZero.pos n)

namespace MessageType

def systemEvent : MessageType := ⟨'S', 12, [⟨11, .char⟩]⟩

def stockDirectory : MessageType :=
  ⟨'R', 39, [⟨11, Alpha 8⟩, ⟨19, .char⟩, ⟨20, .char⟩, ⟨21, .u32⟩, ⟨25, .char⟩, ⟨26, .char⟩, ⟨27, Alpha 2⟩, ⟨29, .char⟩,
    ⟨30, .char⟩, ⟨31, .char⟩, ⟨32, .char⟩, ⟨33, .char⟩, ⟨34, .u32⟩, ⟨38, .char⟩]⟩

def stockTradingAction : MessageType := ⟨'H', 25, [⟨11, Alpha 8⟩, ⟨19, .char⟩, ⟨20, .char⟩, ⟨21, Alpha 4⟩]⟩

def regShoRestriction : MessageType := ⟨'Y', 20, [⟨11, Alpha 8⟩, ⟨19, .char⟩]⟩

def marketParticipantPosition : MessageType :=
  ⟨'L', 26, [⟨11, Alpha 4⟩, ⟨15, Alpha 8⟩, ⟨23, .char⟩, ⟨24, .char⟩, ⟨25, .char⟩]⟩

def mwcbDeclineLevel : MessageType := ⟨'V', 35, [⟨11, .u64⟩, ⟨19, .u64⟩, ⟨27, .u64⟩]⟩

def mwcbStatus : MessageType := ⟨'W', 12, [⟨11, .char⟩]⟩

def ipoQuotingPeriodUpdate : MessageType := ⟨'K', 28, [⟨11, Alpha 8⟩, ⟨19, .u32⟩, ⟨23, .char⟩, ⟨24, .u32⟩]⟩

def luldAuctionCollar : MessageType := ⟨'J', 35, [⟨11, Alpha 8⟩, ⟨19, .u32⟩, ⟨23, .u32⟩, ⟨27, .u32⟩, ⟨31, .u32⟩]⟩

def operationalHalt : MessageType := ⟨'h', 21, [⟨11, Alpha 8⟩, ⟨19, .char⟩, ⟨20, .char⟩]⟩

def addOrder : MessageType := ⟨'A', 36, [⟨11, .u64⟩, ⟨19, .char⟩, ⟨20, .u32⟩, ⟨24, Alpha 8⟩, ⟨32, .u32⟩]⟩

def addOrderMpid : MessageType :=
  ⟨'F', 40, [⟨11, .u64⟩, ⟨19, .char⟩, ⟨20, .u32⟩, ⟨24, Alpha 8⟩, ⟨32, .u32⟩, ⟨36, Alpha 4⟩]⟩

def orderExecuted : MessageType := ⟨'E', 31, [⟨11, .u64⟩, ⟨19, .u32⟩, ⟨23, .u64⟩]⟩

def orderExecutedWithPrice : MessageType := ⟨'C', 36, [⟨11, .u64⟩, ⟨19, .u32⟩, ⟨23, .u64⟩, ⟨31, .char⟩, ⟨32, .u32⟩]⟩

def orderCancel : MessageType := ⟨'X', 23, [⟨11, .u64⟩, ⟨19, .u32⟩]⟩

def orderDelete : MessageType := ⟨'D', 19, [⟨11, .u64⟩]⟩

def orderReplace : MessageType := ⟨'U', 35, [⟨11, .u64⟩, ⟨19, .u64⟩, ⟨27, .u32⟩, ⟨31, .u32⟩]⟩

def trade : MessageType :=
  ⟨'P', 44, [⟨11, .u64⟩, ⟨19, .char⟩, ⟨20, .u32⟩, ⟨24, Alpha 8⟩, ⟨32, .u32⟩, ⟨36, .u64⟩]⟩

def crossTrade : MessageType := ⟨'Q', 40, [⟨11, .u64⟩, ⟨19, Alpha 8⟩, ⟨27, .u32⟩, ⟨31, .u64⟩, ⟨39, .char⟩]⟩

def brokenTrade : MessageType := ⟨'B', 19, [⟨11, .u64⟩]⟩

def noii : MessageType :=
  ⟨'I', 50, [⟨11, .u64⟩, ⟨19, .u64⟩, ⟨27, .char⟩, ⟨28, Alpha 8⟩, ⟨36, .u32⟩, ⟨40, .u32⟩, ⟨44, .u32⟩, ⟨48, .char⟩,
    ⟨49, .char⟩]⟩

def retailInterest : MessageType := ⟨'N', 20, [⟨11, Alpha 8⟩, ⟨19, .char⟩]⟩

def directListing : MessageType :=
  ⟨'O', 48, [⟨11, Alpha 8⟩, ⟨19, .char⟩, ⟨20, .u32⟩, ⟨24, .u32⟩, ⟨28, .u32⟩, ⟨32, .u64⟩, ⟨40, .u32⟩, ⟨44, .u32⟩]⟩

/-- All message types, `AllMessages` in the source. -/
def all : List MessageType :=
  [systemEvent, stockDirectory, stockTradingAction, regShoRestriction, marketParticipantPosition, mwcbDeclineLevel, mwcbStatus,
    ipoQuotingPeriodUpdate, luldAuctionCollar, operationalHalt, addOrder, addOrderMpid, orderExecuted, orderExecutedWithPrice,
    orderCancel, orderDelete, orderReplace, trade, crossTrade, brokenTrade, noii, retailInterest, directListing]

theorem all_lengths : all.map (fun M => (M.kType, M.kLength)) = allMessages := rfl

theorem all_tile : ∀ M ∈ all, M.fieldsTileMessage = true := by decide

theorem kMessageLength_of {M : MessageType} (member : M ∈ all) : kMessageLength (ascii M.kType) = M.kLength := by
  fin_cases member <;> rfl

/-- A type byte has the length of its message type. -/
theorem kMessageLength_eq (type : UInt8) (known : kMessageLength type ≠ 0) :
    ∃ M ∈ all, ascii M.kType = type ∧ kMessageLength type = M.kLength := by
  unfold kMessageLength at known ⊢
  rw [← all_lengths, List.find?_map] at known ⊢
  cases found : all.find? ((fun m => decide (ascii m.1 = type)) ∘ fun M => (M.kType, M.kLength)) with
  | none =>
    rw [found] at known
    exact absurd rfl known
  | some M =>
    refine ⟨M, List.mem_of_find?_eq_some found, ?_, rfl⟩
    simpa using List.find?_some found

end MessageType

end Itch
