import Itch.Messages
import Itch.Store

namespace Itch

/-- The types of message fields. No `Alpha` is empty. -/
inductive FieldType where
  | char
  | u16
  | u32
  | u64
  | alpha (n : Nat) (some : 0 < n)

namespace FieldType

/-- `sizeof` of the member. -/
def size : FieldType → Nat
  | char => 1
  | u16 => 2
  | u32 => 4
  | u64 => 8
  | alpha n _ => n

def Value : FieldType → Type
  | char => UInt8
  | u16 => UInt16
  | u32 => UInt32
  | u64 => UInt64
  | alpha n _ => Fin n → UInt8

end FieldType

def decodeValue (p : List UInt8) (offset : Nat) : (t : FieldType) → t.Value
  | .char => byteAt p offset
  | .u16 => loadBe16 p offset
  | .u32 => loadBe32 p offset
  | .u64 => loadBe64 p offset
  | .alpha _ _ => fun i => byteAt p (offset + i)

def encodeValue (out : List UInt8) (offset : Nat) : (t : FieldType) → t.Value → List UInt8
  | .char, v => store out offset [v]
  | .u16, v => storeBe16 out offset v
  | .u32, v => storeBe32 out offset v
  | .u64, v => storeBe64 out offset v
  | .alpha _ _, v => store out offset (List.ofFn v)

/-- A member of a message with its wire offset. Each message lists its members once. -/
structure Field where
  offset : Nat
  type : FieldType

/-- The members of a message beside its header. -/
def Values : List Field → Type
  | [] => Unit
  | f :: fs => f.type.Value × Values fs

def decodeFields (p : List UInt8) : (fs : List Field) → Values fs
  | [] => ()
  | f :: fs => (decodeValue p f.offset f.type, decodeFields p fs)

def encodeFields : (fs : List Field) → Values fs → List UInt8 → List UInt8
  | [], _, out => out
  | f :: fs, (v, vs), out => encodeFields fs vs (encodeValue out f.offset f.type v)

def kHeaderLength : Nat := 11

/-- A message type. -/
structure MessageType where
  kType : Char
  kLength : Nat
  kFields : List Field

/-- A message of the type. -/
structure Struct (M : MessageType) extends Header where
  values : Values M.kFields

namespace MessageType

variable (M : MessageType)

/-- The fields start right after the header, are contiguous, and end at the length. -/
def fieldsTileMessage : Bool :=
  let (ok, next) := M.kFields.foldl (fun (ok, next) f => (ok && f.offset == next, f.offset + f.type.size)) (true, kHeaderLength)
  ok && next == M.kLength

def decode (p : List UInt8) : Struct M where
  locate := loadBe16 p 1
  tracking := loadBe16 p 3
  timestamp := loadBe48Overread p 5
  values := decodeFields p M.kFields

/-- The buffer after `m` is encoded into it. -/
def encode (m : Struct M) (out : List UInt8) : List UInt8 :=
  let out := store out 0 [ascii M.kType]
  let out := storeBe16 out 1 m.locate
  let out := storeBe16 out 3 m.tracking
  let out := storeBe48 out 5 m.timestamp
  encodeFields M.kFields m.values out

end MessageType

end Itch
