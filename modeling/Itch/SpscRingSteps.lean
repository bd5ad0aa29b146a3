import Itch.SpscRing

namespace Itch

/-- The value a push under way will write. -/
def PushPhase.pending {T : Type} : PushPhase T → Option T
  | .idle => none
  | .loadHead item _ => some item
  | .writeSlot item _ => some item
  | .storeTail item _ => some item

/-- What the batch that ends with the next step has consumed. -/
def PopPhase.got : PopPhase → Nat
  | .storeHead _ avail => avail
  | _ => 0

namespace SpscRing

variable {T : Type} {N : Nat} (s : SpscRing T)

/-- The producer leaves the consumer's side alone. -/
theorem producerStep_frame (item : T) :
    (s.producerStep N item).2.consumer = s.consumer ∧ (s.producerStep N item).2.head = s.head ∧
      (s.producerStep N item).2.consumed = s.consumed ∧ (s.producerStep N item).2.released = s.released := by
  unfold producerStep
  split
  · split <;> exact ⟨rfl, rfl, rfl, rfl⟩
  · split <;> exact ⟨rfl, rfl, rfl, rfl⟩
  · exact ⟨rfl, rfl, rfl, rfl⟩
  · exact ⟨rfl, rfl, rfl, rfl⟩

/-- A push of `item` ends with the value accepted or refused, or goes on. -/
theorem producerStep_push {item : T} (same : s.producer.pending.getD item = item) :
    ((s.producerStep N item).2.producer = .idle ∧ (s.producerStep N item).2.accepted =
        if (s.producerStep N item).1 = .refused then s.accepted else s.accepted ++ [item]) ∨
      ((s.producerStep N item).2.producer.pending = some item ∧ (s.producerStep N item).2.accepted = s.accepted) := by
  unfold producerStep
  cases phase : s.producer with
  | idle =>
    dsimp only
    split <;> exact .inr ⟨rfl, rfl⟩
  | loadHead value tail =>
    rw [phase] at same
    obtain rfl : value = item := same
    dsimp only
    split
    · exact .inl ⟨rfl, rfl⟩
    · exact .inr ⟨rfl, rfl⟩
  | writeSlot value tail =>
    rw [phase] at same
    obtain rfl : value = item := same
    exact .inr ⟨rfl, rfl⟩
  | storeTail value tail =>
    rw [phase] at same
    obtain rfl : value = item := same
    exact .inl ⟨rfl, rfl⟩

/-- The consumer leaves the producer's side alone, and releases a batch as it ends. -/
theorem consumerStep_frame (limit : Nat) :
    (s.consumerStep N limit).2.producer = s.producer ∧ (s.consumerStep N limit).2.tail = s.tail ∧
      (s.consumerStep N limit).2.accepted = s.accepted ∧
      (s.consumerStep N limit).2.released = s.released + s.consumer.got := by
  have taken : ∀ limit head cached, (s.takeAvailable limit head cached).2.producer = s.producer ∧
      (s.takeAvailable limit head cached).2.tail = s.tail ∧ (s.takeAvailable limit head cached).2.accepted = s.accepted ∧
      (s.takeAvailable limit head cached).2.released = s.released := by
    intro limit head cached
    rw [takeAvailable]
    split <;> exact ⟨rfl, rfl, rfl, rfl⟩
  unfold consumerStep
  cases s.consumer with
  | idle =>
    simp only [PopPhase.got, Nat.add_zero]
    split
    · simp only [and_self]
    · exact taken limit s.head s.cachedTail
  | loadTail l head =>
    simp only [PopPhase.got, Nat.add_zero]
    exact taken l head s.tail
  | readSlot head avail i => simp only [PopPhase.got, Nat.add_zero, and_self]
  | storeHead head avail => simp only [PopPhase.got, and_self]

/-- A batch that goes on has released nothing yet. -/
theorem consumerStep_busy {limit : Nat} (busy : (s.consumerStep N limit).2.consumer ≠ .idle) : s.consumer.got = 0 := by
  unfold consumerStep at busy
  cases phase : s.consumer with
  | idle => rfl
  | loadTail limit head => rfl
  | readSlot head avail i => rfl
  | storeHead head avail =>
    rw [phase] at busy
    exact absurd rfl busy

end SpscRing

end Itch
