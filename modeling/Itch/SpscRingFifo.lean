import Itch.SpscRingInvariant

namespace Itch

namespace SpscRing

variable {T : Type} {k start : Nat} {slots : Nat → T} {s : SpscRing T}

/-- The slot of the value accepted as number `j`. -/
def slotOf (N start j : Nat) : Nat := (start + j) % 2 ^ 64 &&& N - 1

theorem slotOf_eq (small : k ≤ 63) (start j : Nat) : slotOf (2 ^ k) start j = (start + j) % 2 ^ k :=
  Wrap.mask_mod (by omega) _

theorem reachable_inv (small : k ≤ 63) (bound : start < 2 ^ 64)
    (reach : Reachable (initial start slots) (Step (2 ^ k)) s) : ∃ ch ct, s.Inv (2 ^ k) start ch ct := by
  refine reach.invariant (fun s => ∃ ch ct, s.Inv (2 ^ k) start ch ct) ⟨0, 0, initial_inv bound slots⟩ ?_
  rintro s e t ⟨ch, ct, inv⟩ (⟨item, taken⟩ | ⟨limit, taken⟩)
  · obtain ⟨⟨ch', kept⟩, -, -⟩ := producerStep_inv small inv taken
    exact ⟨ch', ct, kept⟩
  · obtain ⟨⟨ct', kept⟩, -, -⟩ := consumerStep_inv small inv taken
    exact ⟨ch, ct', kept⟩

theorem writeSlot_free (small : k ≤ 63) {ch ct : Nat} (inv : s.Inv (2 ^ k) start ch ct) {item : T} {tail : Nat}
    (writing : s.producer = .writeSlot item tail) {j : Nat} (unreleased : s.released ≤ j)
    (pushed : j < s.accepted.length) : tail &&& 2 ^ k - 1 ≠ slotOf (2 ^ k) start j := by
  have producer := inv.producer
  rw [writing] at producer
  obtain ⟨rfl, free⟩ := producer
  rw [slotOf_eq small, inv.tail, Wrap.mask_mod (by omega)]
  exact inv.slot_free free unreleased pushed

theorem readSlot_published (small : k ≤ 63) {ch ct : Nat} (inv : s.Inv (2 ^ k) start ch ct) {head avail i : Nat}
    (reading : s.consumer = .readSlot head avail i) :
    s.consumed.length < s.accepted.length ∧ (head + i) % 2 ^ 64 &&& 2 ^ k - 1 = slotOf (2 ^ k) start s.consumed.length ∧
      s.accepted[s.consumed.length]? = some (s.slots ((head + i) % 2 ^ 64 &&& 2 ^ k - 1)) := by
  have consumer := inv.consumer
  have published := inv.tailBehind
  rw [reading] at consumer
  obtain ⟨count, rfl, inside, ready⟩ := consumer
  have ahead : s.consumed.length < s.accepted.length := by omega
  have slot : (s.head + i) % 2 ^ 64 = (start + s.consumed.length) % 2 ^ 64 := by
    rw [inv.head, count, Nat.mod_add_mod, Nat.add_assoc]
  have found : s.accepted[s.consumed.length]? = some s.accepted[s.consumed.length] := List.getElem?_eq_getElem ahead
  have stored := inv.slots _ _ inv.released_le found
  refine ⟨ahead, congrArg (· &&& 2 ^ k - 1) slot, ?_⟩
  rw [slot, Wrap.mask_mod (by omega), stored, found]

/-- The ring is a lossless queue in every interleaving: what was consumed is a
prefix of what was accepted, at most `2 ^ k` values wait, no write touches an
unreleased slot, every read is of a published one, a refusal means a full ring
and an empty-handed pop an empty one. -/
theorem lossless_fifo (small : k ≤ 63) (bound : start < 2 ^ 64)
    (reach : Reachable (initial start slots) (Step (2 ^ k)) s) :
    s.consumed <+: s.accepted ∧ s.accepted.length ≤ s.released + 2 ^ k ∧
    s.accepted.length ≤ s.consumed.length + 2 ^ k ∧
    (∀ item tail, s.producer = .writeSlot item tail →
      ∀ j, s.released ≤ j → j < s.accepted.length → tail &&& 2 ^ k - 1 ≠ slotOf (2 ^ k) start j) ∧
    (∀ head avail i, s.consumer = .readSlot head avail i →
      s.consumed.length < s.accepted.length ∧
      (head + i) % 2 ^ 64 &&& 2 ^ k - 1 = slotOf (2 ^ k) start s.consumed.length ∧
      s.accepted[s.consumed.length]? = some (s.slots ((head + i) % 2 ^ 64 &&& 2 ^ k - 1))) ∧
    (∀ t, Step (2 ^ k) s .refused t → t.accepted.length = t.released + 2 ^ k) ∧
    (∀ limit t, Step (2 ^ k) s (.nothing limit) t →
      limit = 0 ∨ t.accepted.length = t.released ∧ t.consumed = t.accepted) := by
  obtain ⟨ch, ct, inv⟩ := reachable_inv small bound reach
  have room := inv.room
  have behind := inv.headBehind
  have released := inv.released_le
  refine ⟨inv.fifo, by omega, by omega, ?_, ?_, ?_, ?_⟩
  · intro item tail writing j unreleased pushed
    exact writeSlot_free small inv writing unreleased pushed
  · intro head avail i reading
    exact readSlot_published small inv reading
  · rintro t (⟨item, taken⟩ | ⟨limit, taken⟩)
    · exact (producerStep_inv small inv taken).2.1 rfl
    · exact absurd rfl (consumerStep_inv small inv taken).2.1
  · rintro limit t (⟨item, taken⟩ | ⟨limit', taken⟩)
    · exact absurd rfl ((producerStep_inv small inv taken).2.2 limit)
    · obtain ⟨⟨ct', kept⟩, -, found⟩ := consumerStep_inv small inv taken
      rcases found limit rfl with zero | drained
      · exact .inl zero
      · have between := kept.released_le
        have whole := kept.fifo.eq_of_length_le (by omega)
        exact .inr ⟨drained, whole⟩

/-- Two pushes across the wrap of the index fill the ring, a third is refused, and one pop
takes both. -/
theorem lossless_fifo_sample :
    let push := fun item s => (producerStep (2 ^ 1) item s).2
    let pop := fun s => (consumerStep (2 ^ 1) 2 s).2
    let full := (push 9)^[1] ((push 8)^[3] ((push 7)^[3] (initial (2 ^ 64 - 1) fun _ => 0)))
    let reading := pop^[3] full
    let popped := pop^[2] reading
    full.tail = 1 ∧ (full.producerStep (2 ^ 1) 9).1 = .refused ∧ (push 9 full).accepted.length = (push 9 full).released + 2 ^ 1 ∧
      reading.consumer = .readSlot (2 ^ 64 - 1) 2 1 ∧ reading.accepted[1]? = some (reading.slots 0) ∧
      popped.head = 1 ∧ popped.consumed = [7, 8] ∧ popped.consumed <+: popped.accepted ∧
      popped.accepted.length ≤ popped.released + 2 ^ 1 := by
  intro push pop full reading popped
  have pushes : ∀ item n s, Reachable (initial (2 ^ 64 - 1) fun _ => 0) (Step (2 ^ 1)) s →
      Reachable (initial (2 ^ 64 - 1) fun _ => 0) (Step (2 ^ 1)) ((push item)^[n] s) :=
    fun item n s reach => reach.iterate (fun s => ⟨_, .inl ⟨item, rfl⟩⟩) n
  have filled : Reachable (initial (2 ^ 64 - 1) fun _ => 0) (Step (2 ^ 1)) full :=
    pushes 9 1 _ (pushes 8 3 _ (pushes 7 3 _ .start))
  have read : Reachable (initial (2 ^ 64 - 1) fun _ => 0) (Step (2 ^ 1)) reading :=
    filled.iterate (fun s => ⟨_, .inr ⟨2, rfl⟩⟩) 3
  have done : Reachable (initial (2 ^ 64 - 1) fun _ => 0) (Step (2 ^ 1)) popped :=
    read.iterate (fun s => ⟨_, .inr ⟨2, rfl⟩⟩) 2
  obtain ⟨-, -, -, -, -, refused, -⟩ := @lossless_fifo Nat 1 (2 ^ 64 - 1) (fun _ => 0) full (by decide) (by decide) filled
  obtain ⟨-, -, -, -, published, -, -⟩ := @lossless_fifo Nat 1 (2 ^ 64 - 1) (fun _ => 0) reading (by decide) (by decide) read
  obtain ⟨fifo, room, -⟩ := @lossless_fifo Nat 1 (2 ^ 64 - 1) (fun _ => 0) popped (by decide) (by decide) done
  have refusal : (full.producerStep (2 ^ 1) 9).1 = .refused := by decide
  have taken : full.producerStep (2 ^ 1) 9 = (.refused, push 9 full) := refusal ▸ (Prod.eta _).symm
  have second : reading.consumer = .readSlot (2 ^ 64 - 1) 2 1 := by decide +kernel
  have blocked := refused (push 9 full) (.inl ⟨9, taken⟩)
  obtain ⟨-, -, stored⟩ := published (2 ^ 64 - 1) 2 1 second
  have one : reading.consumed.length = 1 := by decide
  have zero : (2 ^ 64 - 1 + 1) % 2 ^ 64 &&& 2 ^ 1 - 1 = 0 := by decide
  rw [one, zero] at stored
  exact ⟨by decide, refusal, blocked, second, stored, by decide, by decide, fifo, room⟩

end SpscRing

end Itch
