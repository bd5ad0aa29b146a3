import Itch.Messages
import Itch.Stream

namespace Itch

/-- What a parser calls: `on` for a decoded message, `wants` and `prefetch` if the
handler has them. -/
structure Handler (σ : Type) where
  on : σ → Message → σ
  wants : Option (σ → UInt8 → UInt16 → Bool) := none
  prefetch : Option (σ → List UInt8 → σ) := none

structure ParserStats where
  messages : Nat := 0
  unknownType : Nat := 0
  badLength : Nat := 0
  empty : Nat := 0
  filtered : Nat := 0
  byType : UInt8 → Nat := fun _ => 0

/-- A parser and its handler. -/
structure Parser (σ : Type) where
  handler : σ
  stats : ParserStats := {}

namespace Parser

variable {σ : Type} (H : Handler σ)

/-- The counters after a well-formed message. -/
def counted (stats : ParserStats) (type : UInt8) : ParserStats :=
  { stats with messages := stats.messages + 1, byType := fun t => if t = type then stats.byType t + 1 else stats.byType t }

def dispatch (p : Parser σ) (msg : List UInt8) : Parser σ := { p with handler := H.on p.handler (.decode msg) }

/-- Parses one message; its first byte is the type. -/
def parse (p : Parser σ) (msg : List UInt8) : Parser σ :=
  if msg.length = 0 then { p with stats.empty := p.stats.empty + 1 } else
  let type := byteAt msg 0
  let expected := kMessageLength type
  if expected ≠ msg.length then
    if expected = 0 then { p with stats.unknownType := p.stats.unknownType + 1 }
    else { p with stats.badLength := p.stats.badLength + 1 }
  else
    let p := { p with stats := counted p.stats type }
    match H.wants with
    | none => p.dispatch H msg
    | some wants =>
      if wants p.handler type (loadBe16 msg 1) then p.dispatch H msg
      else { p with stats.filtered := p.stats.filtered + 1 }

/-- The parser after the records of `buf`, and the bytes consumed. -/
def parseStream (p : Parser σ) (buf : List UInt8) : Parser σ × Nat := Itch.parseStream (parse H) buf p

/-- Prefetches the record at `ahead` if it is complete. -/
def prefetchNext (prefetch : σ → List UInt8 → σ) (buf : List UInt8) (s : Parser σ × Nat) : Parser σ × Nat :=
  let (p, ahead) := s
  if buf.length < ahead + 2 then s else
  let n := (loadBe16 buf ahead).toNat
  if buf.length < ahead + 2 + n then s else
  ({ p with handler := prefetch p.handler (slice buf (ahead + 2) n) }, ahead + 2 + n)

/-- `parseStream` with a lookahead: with each record the one `distance` records on is prefetched. -/
def parseStreamPrefetch (distance : Nat) (p : Parser σ) (buf : List UInt8) : Parser σ × Nat :=
  match H.prefetch with
  | none => p.parseStream H buf
  | some prefetch =>
    if distance = 0 then p.parseStream H buf else
    let s := (prefetchNext prefetch buf)^[distance] (p, 0)
    let (s, off) := Itch.parseStream (fun s msg => prefetchNext prefetch buf (s.1.parse H msg, s.2)) buf s
    (s.1, off)

/-- The counters after a message, but for `filtered`. No handler has a say in them. -/
def tally (stats : ParserStats) (msg : List UInt8) : ParserStats :=
  if msg.length = 0 then { stats with empty := stats.empty + 1 }
  else if kMessageLength (byteAt msg 0) = msg.length then counted stats (byteAt msg 0)
  else if kMessageLength (byteAt msg 0) = 0 then { stats with unknownType := stats.unknownType + 1 }
  else { stats with badLength := stats.badLength + 1 }

/-- A message that is decoded if the handler wants it. -/
def WellFormed (msg : List UInt8) : Prop := msg.length ≠ 0 ∧ kMessageLength (byteAt msg 0) = msg.length

instance (msg : List UInt8) : Decidable (WellFormed msg) :=
  inferInstanceAs (Decidable (msg.length ≠ 0 ∧ kMessageLength (byteAt msg 0) = msg.length))

theorem addOrder_formed {m : MsgAddOrder} (stock : m.stock.length = 8) : WellFormed m.encode := by
  have length := m.encode_length stock
  refine ⟨by omega, ?_⟩
  rw [length]
  rfl

variable {H} {p : Parser σ} {msg : List UInt8}

theorem parse_malformed (malformed : ¬ WellFormed msg) : p.parse H msg = { p with stats := tally p.stats msg } := by
  unfold parse tally
  split
  · rfl
  · rename_i some
    have other : kMessageLength (byteAt msg 0) ≠ msg.length := fun same => malformed ⟨some, same⟩
    dsimp only
    rw [if_pos other, if_neg other]
    split <;> rfl

section WellFormed

variable (formed : WellFormed msg)
include formed

theorem tally_formed (stats : ParserStats) : tally stats msg = counted stats (byteAt msg 0) := by
  rw [tally, if_neg formed.1, if_pos formed.2]

/-- A handler without `wants` gets every well-formed message. -/
theorem parse_all (all : H.wants = none) :
    p.parse H msg = { handler := H.on p.handler (.decode msg), stats := tally p.stats msg } := by
  rw [tally_formed formed, parse, if_neg formed.1]
  dsimp only
  rw [if_neg (not_not.mpr formed.2), all]
  rfl

theorem parse_filter {wants : σ → UInt8 → UInt16 → Bool} (filter : H.wants = some wants) :
    p.parse H msg =
      if wants p.handler (byteAt msg 0) (loadBe16 msg 1) then
        { handler := H.on p.handler (.decode msg), stats := tally p.stats msg }
      else
        { handler := p.handler
          stats := { tally p.stats msg with filtered := (tally p.stats msg).filtered + 1 } } := by
  rw [tally_formed formed, parse, if_neg formed.1]
  dsimp only
  rw [if_neg (not_not.mpr formed.2), filter]
  rfl

end WellFormed

end Parser

end Itch
