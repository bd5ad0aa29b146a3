import Itch.Stream

namespace Itch

/-- The generator of the sender: every complete record with its length field. -/
def recordsFrom (data : List UInt8) : Nat → Nat → List (List UInt8)
  | 0, _ => []
  | fuel + 1, off =>
    if off + 2 ≤ data.length then
      let n := (loadBe16 data off).toNat
      if data.length < off + 2 + n then []
      else slice data off (2 + n) :: recordsFrom data fuel (off + 2 + n)
    else []

def records (data : List UInt8) : List (List UInt8) := recordsFrom data data.length 0

/-- A packet: session, sequence number and message count, then the blocks. -/
def moldPacket (session : List UInt8) (seq count : Nat) (blocks : List (List UInt8)) : List UInt8 :=
  session ++ BigEndian.encode 8 seq ++ BigEndian.encode 2 count ++ blocks.flatten

/-- The session argument cut to ten characters and padded with spaces. -/
def moldSession (name : List UInt8) : List UInt8 :=
  name.take 10 ++ List.replicate (10 - (name.take 10).length) 0x20

structure SendState where
  seq : Nat := 1
  batch : List (List UInt8) := []
  batchBytes : Nat := 0
  sent : List (List UInt8) := []

def SendState.flush (session : List UInt8) (st : SendState) : SendState :=
  if st.batch = [] then st
  else
    { seq := st.seq + st.batch.length, batch := [], batchBytes := 0,
      sent := st.sent ++ [moldPacket session st.seq st.batch.length st.batch] }

/-- One turn of the loop over the records. The option `mtu` is any integer. -/
def SendState.push (session : List UInt8) (mtu : Int) (st : SendState) (rec : List UInt8) : SendState :=
  let st := if (st.batchBytes + rec.length : Int) > mtu - 20 ∨ st.batch.length = 0xFFFE then st.flush session else st
  { st with batch := st.batch ++ [rec], batchBytes := st.batchBytes + rec.length }

/-- The state after the last flush: all data packets are sent. -/
def sendRecords (session : List UInt8) (mtu : Int) (data : List UInt8) : SendState :=
  ((records data).foldl (SendState.push session mtu) {}).flush session

def dataPackets (session : List UInt8) (mtu : Int) (data : List UInt8) : List (List UInt8) :=
  (sendRecords session mtu data).sent

/-- Everything the sender puts on the wire for a file: the data packets and
three end-of-session packets. -/
def moldSend (name : List UInt8) (mtu : Int) (data : List UInt8) : List (List UInt8) :=
  let session := moldSession name
  let st := sendRecords session mtu data
  st.sent ++ List.replicate 3 (moldPacket session st.seq 0xFFFF [])

end Itch
