import Itch.CodecRoundTrip
import Itch.MessageStructs
import Itch.Parser
import Itch.SyntheticFeed

namespace Itch

open MessageType

namespace SyntheticFeed

section Encoded

variable {M : MessageType} (member : M ∈ MessageType.all) (m : Struct M)
include member

theorem encoded_eq : encoded M m = M.wireBytes m := by
  rw [encoded, encode_eq (all_tile M member), List.drop_of_length_le, List.append_nil]
  rw [List.length_replicate]

theorem encoded_length : (encoded M m).length = M.kLength := by
  rw [encoded_eq member, wireBytes_length (all_tile M member)]

theorem encoded_short : (encoded M m).length < 2 ^ 16 := by
  have short : ∀ M ∈ MessageType.all, M.kLength < 2 ^ 16 := by decide
  rw [encoded_length member]
  exact short M member

theorem encoded_type : byteAt (encoded M m) 0 = ascii M.kType := by
  rw [encoded_eq member]
  rfl

theorem encoded_formed : Parser.WellFormed (encoded M m) := by
  have length := encoded_length member m
  have known := kMessageLength_of member
  refine ⟨?_, by rw [encoded_type member, known, length]⟩
  rw [encoded_eq member, wireBytes, List.length_append, Header.encode_length]
  omega

/-- A message as its reader has it: the timestamp has 48 bits on the wire. -/
theorem decode_struct : M.decode (encoded M m) = { m with timestamp := m.timestamp % 0x1000000000000 } :=
  decode_encode (all_tile M member) m _

/-- What a parser makes of a message that the feed has sent. -/
theorem decode_encoded : Message.decode (encoded M m) = Message.of M (encoded M m) :=
  Message.decode_eq member (encoded_length member m) (encoded_type member m)

/-- The same where it makes a structure. -/
theorem decode_made (make : Struct M → Message) (picked : ∀ p, Message.of M p = make (M.decode p)) :
    Message.decode (encoded M m) = make { m with timestamp := m.timestamp % 0x1000000000000 } := by
  rw [decode_encoded member, picked, decode_struct member]

end Encoded

end SyntheticFeed

end Itch
