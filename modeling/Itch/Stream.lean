import Itch.Bytes

namespace Itch

/-- The loop of `parse_stream` from `off` on: the state after it and the bytes
consumed. Every turn consumes at least two bytes, so `fuel` need not exceed the length. -/
def parseStreamFrom {σ : Type} (parse : σ → List UInt8 → σ) (buf : List UInt8) : Nat → Nat → σ → σ × Nat
  | 0, off, s => (s, off)
  | fuel + 1, off, s =>
    if off + 2 ≤ buf.length then
      let n := (loadBe16 buf off).toNat
      if buf.length < off + 2 + n then (s, off)
      else parseStreamFrom parse buf fuel (off + 2 + n) (parse s (slice buf (off + 2) n))
    else (s, off)

def parseStream {σ : Type} (parse : σ → List UInt8 → σ) (buf : List UInt8) (s : σ) : σ × Nat :=
  parseStreamFrom parse buf buf.length 0 s

/-- The complete records of `buf` from `off` on, without their length fields. -/
def messagesFrom (buf : List UInt8) : Nat → Nat → List (List UInt8)
  | 0, _ => []
  | fuel + 1, off =>
    if off + 2 ≤ buf.length then
      let n := (loadBe16 buf off).toNat
      if buf.length < off + 2 + n then []
      else slice buf (off + 2) n :: messagesFrom buf fuel (off + 2 + n)
    else []

def messages (buf : List UInt8) : List (List UInt8) := messagesFrom buf buf.length 0

/-- Where the complete records of `buf` from `off` on end. -/
def consumedFrom (buf : List UInt8) : Nat → Nat → Nat
  | 0, off => off
  | fuel + 1, off =>
    if off + 2 ≤ buf.length then
      let n := (loadBe16 buf off).toNat
      if buf.length < off + 2 + n then off else consumedFrom buf fuel (off + 2 + n)
    else off

theorem parseStreamFrom_eq {σ : Type} (parse : σ → List UInt8 → σ) (buf : List UInt8) (fuel off : Nat) (s : σ) :
    parseStreamFrom parse buf fuel off s =
      ((messagesFrom buf fuel off).foldl parse s, consumedFrom buf fuel off) := by
  induction fuel generalizing off s with
  | zero => rfl
  | succ fuel ih =>
    simp only [parseStreamFrom, messagesFrom, consumedFrom]
    by_cases field : off + 2 ≤ buf.length
    · by_cases short : buf.length < off + 2 + (loadBe16 buf off).toNat
      · simp only [if_pos field, if_pos short, List.foldl_nil]
      · simp only [if_pos field, if_neg short, List.foldl_cons, ih]
    · simp only [if_neg field, List.foldl_nil]

/-- Whatever `parse` does, the stream loop applies it to the complete records in order. -/
theorem parseStream_eq {σ : Type} (parse : σ → List UInt8 → σ) (buf : List UInt8) (s : σ) :
    parseStream parse buf s = ((messages buf).foldl parse s, consumedFrom buf buf.length 0) :=
  parseStreamFrom_eq parse buf buf.length 0 s

section Lookahead

variable {σ : Type} {next : σ × Nat → σ × Nat} (quiet : ∀ s, (next s).1 = s.1)
include quiet

theorem iterate_lookahead (distance : Nat) (s : σ × Nat) : (next^[distance] s).1 = s.1 := by
  induction distance with
  | zero => rfl
  | succ distance ih => rw [Function.iterate_succ_apply', quiet, ih]

theorem foldl_lookahead (parse : σ → List UInt8 → σ) (msgs : List (List UInt8)) (s : σ × Nat) :
    (msgs.foldl (fun s msg => next (parse s.1 msg, s.2)) s).1 = msgs.foldl parse s.1 := by
  induction msgs generalizing s with
  | nil => rfl
  | cons msg msgs ih => rw [List.foldl_cons, List.foldl_cons, ih, quiet]

/-- A lookahead that leaves the state alone, before the loop and in each turn of it,
changes nothing. -/
theorem parseStream_lookahead (parse : σ → List UInt8 → σ) (distance : Nat) (buf : List UInt8) (s : σ × Nat) :
    ((parseStream (fun s msg => next (parse s.1 msg, s.2)) buf (next^[distance] s)).1.1,
      (parseStream (fun s msg => next (parse s.1 msg, s.2)) buf (next^[distance] s)).2) = parseStream parse buf s.1 := by
  rw [parseStream_eq, parseStream_eq]
  dsimp only
  rw [foldl_lookahead quiet, iterate_lookahead quiet]

end Lookahead

end Itch
