import Itch.Lib.Reachable
import Itch.Lib.Wrap
import Mathlib.Logic.Function.Basic

namespace Itch

open Wrap

/-- Where the producer is in `try_push`, with what it holds in registers. -/
inductive PushPhase (T : Type) where
  | idle
  | loadHead (item : T) (tail : Nat)
  | writeSlot (item : T) (tail : Nat)
  | storeTail (item : T) (tail : Nat)

/-- Where the consumer is in `pop_batch`, `limit` being its `max`. The steps of
`try_pop` are those of a batch limited to one. -/
inductive PopPhase where
  | idle
  | loadTail (limit head : Nat)
  | readSlot (head avail i : Nat)
  | storeHead (head avail : Nat)
  deriving DecidableEq

/-- What a step reports to its caller, if it ends a call without a value. -/
inductive RingEvent where
  | silent
  | refused
  | nothing (limit : Nat)
  deriving DecidableEq

/-- The ring with both sides' private state. The indices are 64-bit. The last
three fields are history: values whose push returned true, values consumed,
and how many of these the consumer has released. -/
structure SpscRing (T : Type) where
  tail : Nat
  cachedHead : Nat
  head : Nat
  cachedTail : Nat
  slots : Nat → T
  producer : PushPhase T := .idle
  consumer : PopPhase := .idle
  accepted : List T := []
  consumed : List T := []
  released : Nat := 0

namespace SpscRing

variable {T : Type} (N : Nat)

def initial (start : Nat) (slots : Nat → T) : SpscRing T :=
  { tail := start, cachedHead := start, head := start, cachedTail := start, slots := slots }

/-- One access of `try_push` to shared state with the local work after it.
`item` is the argument of the next call and only used between calls. -/
def producerStep (item : T) (s : SpscRing T) : RingEvent × SpscRing T :=
  match s.producer with
  | .idle =>
    if distance (2 ^ 64) s.tail s.cachedHead = N then (.silent, { s with producer := .loadHead item s.tail })
    else (.silent, { s with producer := .writeSlot item s.tail })
  | .loadHead item tail =>
    if distance (2 ^ 64) tail s.head = N then (.refused, { s with cachedHead := s.head, producer := .idle })
    else (.silent, { s with cachedHead := s.head, producer := .writeSlot item tail })
  | .writeSlot item tail =>
    (.silent, { s with slots := Function.update s.slots (tail &&& N - 1) item, producer := .storeTail item tail })
  | .storeTail item tail =>
    (.silent, { s with tail := (tail + 1) % 2 ^ 64, producer := .idle, accepted := s.accepted ++ [item] })

/-- After the cached tail is known to be `cached`: read what is there, or return. -/
def takeAvailable (limit head cached : Nat) (s : SpscRing T) : RingEvent × SpscRing T :=
  let avail := min (distance (2 ^ 64) cached head) limit
  if avail = 0 then (.nothing limit, { s with cachedTail := cached, consumer := .idle })
  else (.silent, { s with cachedTail := cached, consumer := .readSlot head avail 0 })

/-- One access of `pop_batch` or `try_pop` to shared state with the local work
after it. `limit` is the argument of the next call. -/
def consumerStep (limit : Nat) (s : SpscRing T) : RingEvent × SpscRing T :=
  match s.consumer with
  | .idle =>
    if s.head = s.cachedTail then (.silent, { s with consumer := .loadTail limit s.head })
    else s.takeAvailable limit s.head s.cachedTail
  | .loadTail limit head => s.takeAvailable limit head s.tail
  | .readSlot head avail i =>
    let value := s.slots ((head + i) % 2 ^ 64 &&& N - 1)
    (.silent, { s with consumed := s.consumed ++ [value],
                       consumer := if i + 1 < avail then .readSlot head avail (i + 1) else .storeHead head avail })
  | .storeHead head avail =>
    (.silent, { s with head := (head + avail) % 2 ^ 64, consumer := .idle, released := s.released + avail })

/-- Either side takes its next step. -/
def Step (s : SpscRing T) (e : RingEvent) (t : SpscRing T) : Prop :=
  (∃ item, s.producerStep N item = (e, t)) ∨ ∃ limit, s.consumerStep N limit = (e, t)

end SpscRing

end Itch
