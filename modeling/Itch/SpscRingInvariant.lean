import Itch.SpscRing
import Mathlib.Data.List.Basic

namespace Itch

open Wrap

namespace SpscRing

variable {T : Type} {N : Nat}

/-- What the producer's registers say, `ch` being the count behind its cached head. -/
def producing (N start ch : Nat) (s : SpscRing T) : PushPhase T → Prop
  | .idle => True
  | .loadHead _ tail => tail = s.tail
  | .writeSlot _ tail => tail = s.tail ∧ s.accepted.length < ch + N
  | .storeTail item tail => tail = s.tail ∧ s.accepted.length < ch + N ∧
      s.slots ((start + s.accepted.length) % N) = item

/-- What the consumer's registers say, `ct` being the count behind its cached tail. -/
def consuming (ct : Nat) (s : SpscRing T) : PopPhase → Prop
  | .idle => s.consumed.length = s.released
  | .loadTail _ head => s.consumed.length = s.released ∧ head = s.head
  | .readSlot head avail i => s.consumed.length = s.released + i ∧ head = s.head ∧ i < avail ∧ s.released + avail ≤ ct
  | .storeHead head avail => s.consumed.length = s.released + avail ∧ head = s.head

/-- What holds between any two steps, the counts being the history's from `start` on. -/
structure Inv (N start : Nat) (s : SpscRing T) (ch ct : Nat) : Prop where
  tail : s.tail = (start + s.accepted.length) % 2 ^ 64
  head : s.head = (start + s.released) % 2 ^ 64
  cachedHead : s.cachedHead = (start + ch) % 2 ^ 64
  cachedTail : s.cachedTail = (start + ct) % 2 ^ 64
  headBehind : ch ≤ s.released
  room : s.accepted.length ≤ ch + N
  consumedBehind : s.consumed.length ≤ ct
  tailBehind : ct ≤ s.accepted.length
  fifo : s.consumed <+: s.accepted
  slots : ∀ j value, s.released ≤ j → s.accepted[j]? = some value → s.slots ((start + j) % N) = value
  producer : s.producing N start ch s.producer
  consumer : s.consuming ct s.consumer

theorem Inv.released_le {start ch ct : Nat} {s : SpscRing T} (inv : s.Inv N start ch ct) :
    s.released ≤ s.consumed.length := by
  have consumer := inv.consumer
  unfold consuming at consumer
  split at consumer <;> omega

theorem initial_inv {start : Nat} (bound : start < 2 ^ 64) (slots : Nat → T) :
    (initial start slots).Inv N start 0 0 := by
  have wrapped : start = (start + 0) % 2 ^ 64 := (Nat.mod_eq_of_lt bound).symm
  refine ⟨wrapped, wrapped, wrapped, wrapped, le_refl 0, Nat.zero_le _, le_refl 0, le_refl 0, List.prefix_refl _, ?_,
    trivial, rfl⟩
  intro j value _ found
  cases found

section Steps

variable {start ch ct : Nat} {s : SpscRing T}

/-- The fullness test compares the true counts. -/
theorem Inv.full_iff (inv : s.Inv N start ch ct) (small : N < 2 ^ 64) :
    distance (2 ^ 64) s.tail s.cachedHead = N ↔ s.accepted.length = ch + N := by
  have room := inv.room
  have behind := inv.headBehind
  have released := inv.released_le
  have consumed := inv.consumedBehind
  have published := inv.tailBehind
  rw [inv.tail, inv.cachedHead, distance_of_le (by omega) (by omega)]
  omega

/-- Reloading the head keeps the invariant, with the released count behind the cache. -/
theorem Inv.reload (inv : s.Inv N start ch ct) :
    ({ s with cachedHead := s.head, producer := .idle }).Inv N start s.released ct := by
  have behind := inv.headBehind
  have room := inv.room
  exact { inv with
    cachedHead := inv.head
    headBehind := le_refl _
    room := by change s.accepted.length ≤ s.released + N; omega
    producer := trivial }

/-- Until its tail store the producer owns the slot it has seen free. -/
theorem Inv.slot_free (inv : s.Inv N start ch ct) (free : s.accepted.length < ch + N) {j : Nat}
    (unreleased : s.released ≤ j) (pushed : j < s.accepted.length) :
    (start + s.accepted.length) % N ≠ (start + j) % N := by
  intro same
  have behind := inv.headBehind
  have equal := mod_inj_of_close start pushed.le (by omega) same
  omega

theorem Inv.write (inv : s.Inv N start ch ct) (free : s.accepted.length < ch + N) (item : T) :
    ({ s with slots := Function.update s.slots ((start + s.accepted.length) % N) item,
              producer := .storeTail item s.tail }).Inv N start ch ct := by
  refine { inv with slots := ?_, producer := ⟨rfl, free, Function.update_self ..⟩ }
  intro j value unreleased found
  have pushed : j < s.accepted.length := (List.getElem?_eq_some_iff.mp found).1
  have other := (inv.slot_free free unreleased pushed).symm
  exact (Function.update_of_ne other ..).trans (inv.slots j value unreleased found)

theorem Inv.publish (inv : s.Inv N start ch ct) (free : s.accepted.length < ch + N) {item : T}
    (written : s.slots ((start + s.accepted.length) % N) = item) :
    ({ s with tail := (s.tail + 1) % 2 ^ 64, producer := .idle,
              accepted := s.accepted ++ [item] }).Inv N start ch ct := by
  have count : (s.accepted ++ [item]).length = s.accepted.length + 1 := List.length_append
  refine { inv with tail := ?_, room := ?_, tailBehind := ?_, fifo := ?_, slots := ?_, producer := trivial }
  · change (s.tail + 1) % 2 ^ 64 = (start + (s.accepted ++ [item]).length) % 2 ^ 64
    rw [inv.tail, count, Nat.mod_add_mod, Nat.add_assoc]
  · change (s.accepted ++ [item]).length ≤ ch + N
    omega
  · change ct ≤ (s.accepted ++ [item]).length
    have published := inv.tailBehind
    omega
  · exact inv.fifo.trans (List.prefix_append ..)
  · intro j value unreleased found
    rcases List.getElem?_eq_some_iff.mp found with ⟨inside, _⟩
    by_cases old : j < s.accepted.length
    · exact inv.slots j value unreleased (by rwa [List.getElem?_append_left old] at found)
    · have last : j = s.accepted.length := by
        have inside : j < (s.accepted ++ [item]).length := inside
        omega
      subst last
      have pushed : item = value := by simpa using found
      exact written.trans pushed

/-- What a producer step leaves: the invariant, and a full ring if it refused. -/
theorem producerStep_inv {k : Nat} (small : k ≤ 63) (inv : s.Inv (2 ^ k) start ch ct) {item : T} {e : RingEvent}
    {t : SpscRing T} (taken : s.producerStep (2 ^ k) item = (e, t)) :
    (∃ ch', t.Inv (2 ^ k) start ch' ct) ∧ (e = .refused → t.accepted.length = t.released + 2 ^ k) ∧
      ∀ limit, e ≠ .nothing limit := by
  have size : 2 ^ k < 2 ^ 64 := Nat.pow_lt_pow_right (by omega) (by omega)
  have slot : s.tail &&& 2 ^ k - 1 = (start + s.accepted.length) % 2 ^ k := by
    rw [inv.tail, mask_mod (by omega)]
  have producer := inv.producer
  have room := inv.room
  unfold producerStep at taken
  split at taken <;> rename_i phase <;> rw [phase] at producer
  · split at taken <;> rename_i full <;> cases taken
    · exact ⟨⟨ch, { inv with producer := rfl }⟩, nofun, nofun⟩
    · have free : s.accepted.length < ch + 2 ^ k := lt_of_le_of_ne room (full ∘ (inv.full_iff size).mpr)
      exact ⟨⟨ch, { inv with producer := ⟨rfl, free⟩ }⟩, nofun, nofun⟩
  · obtain rfl := producer
    have reloaded := inv.reload
    have test := reloaded.full_iff size
    split at taken <;> rename_i full <;> cases taken
    · exact ⟨⟨s.released, reloaded⟩, fun _ => test.mp full, nofun⟩
    · have free : s.accepted.length < s.released + 2 ^ k := lt_of_le_of_ne reloaded.room (full ∘ test.mpr)
      exact ⟨⟨s.released, { reloaded with producer := ⟨rfl, free⟩ }⟩, nofun, nofun⟩
  · obtain ⟨rfl, free⟩ := producer
    rw [slot] at taken
    cases taken
    exact ⟨⟨ch, inv.write free _⟩, nofun, nofun⟩
  · obtain ⟨rfl, free, written⟩ := producer
    cases taken
    exact ⟨⟨ch, inv.publish free written⟩, nofun, nofun⟩

/-- A value at a position published and not yet released is in its slot. -/
theorem Inv.read (inv : s.Inv N start ch ct) {i : Nat} (count : s.consumed.length = s.released + i) {value : T}
    (found : s.accepted[s.consumed.length]? = some value) : s.slots ((start + (s.released + i)) % N) = value :=
  inv.slots _ _ (Nat.le_add_right ..) (count ▸ found)

theorem prefix_next {consumed accepted : List T} (fifo : consumed <+: accepted) {value : T}
    (found : accepted[consumed.length]? = some value) : consumed ++ [value] <+: accepted := by
  have next : consumed ++ [value] = accepted.take (consumed.length + 1) := by
    rw [List.take_add_one, found, ← List.prefix_iff_eq_take.mp fifo]
    rfl
  rw [next]
  exact List.take_prefix ..

/-- Taking what is available up to a count `c` that is published. -/
theorem takeAvailable_inv (inv : s.Inv N start ch ct) (small : N < 2 ^ 64) {c limit : Nat} (newer : ct ≤ c)
    (published : c ≤ s.accepted.length) (between : s.consumed.length = s.released) {e : RingEvent} {t : SpscRing T}
    (taken : s.takeAvailable limit s.head ((start + c) % 2 ^ 64) = (e, t)) :
    (∃ ct', t.Inv N start ch ct') ∧ e ≠ .refused ∧
      ∀ l, e = .nothing l → l = 0 ∨ c = s.released ∧ t.accepted = s.accepted ∧ t.released = s.released := by
  have behind := inv.consumedBehind
  have room := inv.room
  have head := inv.headBehind
  have available : distance (2 ^ 64) ((start + c) % 2 ^ 64) s.head = c - s.released := by
    rw [inv.head, distance_of_le (by omega) (by omega)]
  rw [takeAvailable, available] at taken
  have cached : ∀ phase, s.consuming c phase →
      ({ s with cachedTail := (start + c) % 2 ^ 64, consumer := phase }).Inv N start ch c := fun phase holds =>
    { inv with
      cachedTail := rfl
      consumedBehind := by change s.consumed.length ≤ c; omega
      tailBehind := published
      consumer := holds }
  split at taken <;> rename_i none <;> cases taken
  · refine ⟨⟨c, cached .idle between⟩, nofun, ?_⟩
    rintro l ⟨⟩
    rcases Nat.min_eq_zero_iff.mp none with drained | zero
    · exact .inr ⟨by omega, rfl, rfl⟩
    · exact .inl zero
  · exact ⟨⟨c, cached _ ⟨between, rfl, by omega, by omega⟩⟩, nofun, nofun⟩

/-- The slot that the consumer reads holds the next value accepted. -/
theorem readSlot_inv {k : Nat} (small : k ≤ 63) (inv : s.Inv (2 ^ k) start ch ct) {head avail i : Nat}
    (reading : s.consuming ct (.readSlot head avail i)) :
    SpscRing.Inv (2 ^ k) start { s with
      consumed := s.consumed ++ [s.slots ((head + i) % 2 ^ 64 &&& 2 ^ k - 1)]
      consumer := if i + 1 < avail then .readSlot head avail (i + 1) else .storeHead head avail } ch ct := by
  have published := inv.tailBehind
  obtain ⟨count, rfl, inside, ready⟩ := reading
  obtain ⟨value, found⟩ : ∃ value, s.accepted[s.consumed.length]? = some value :=
    ⟨_, List.getElem?_eq_getElem (by omega)⟩
  have slot : (s.head + i) % 2 ^ 64 &&& 2 ^ k - 1 = (start + (s.released + i)) % 2 ^ k := by
    rw [inv.head, Nat.mod_add_mod, mask_mod (by omega), Nat.add_assoc]
  rw [slot, inv.read count found]
  have grown : (s.consumed ++ [value]).length = s.consumed.length + 1 := List.length_append
  refine { inv with consumedBehind := ?_, fifo := prefix_next inv.fifo found, consumer := ?_ }
  · change (s.consumed ++ [value]).length ≤ ct
    omega
  · have count : (s.consumed ++ [value]).length = s.released + (i + 1) := by omega
    by_cases more : i + 1 < avail
    · simp only [more, if_true]
      exact ⟨count, rfl, more, ready⟩
    · have last : i + 1 = avail := by omega
      simp only [more, if_false]
      exact ⟨last ▸ count, rfl⟩

/-- What was read is given back to the producer. -/
theorem storeHead_inv (inv : s.Inv N start ch ct) {head avail : Nat} (storing : s.consuming ct (.storeHead head avail)) :
    SpscRing.Inv N start { s with
      head := (head + avail) % 2 ^ 64, consumer := .idle, released := s.released + avail } ch ct := by
  obtain ⟨count, rfl⟩ := storing
  have behindHead := inv.headBehind
  refine { inv with head := ?_, headBehind := ?_, slots := ?_, consumer := count }
  · change (s.head + avail) % 2 ^ 64 = (start + (s.released + avail)) % 2 ^ 64
    rw [inv.head, Nat.mod_add_mod, Nat.add_assoc]
  · change ch ≤ s.released + avail
    omega
  · intro j value unreleased found
    have unreleased : s.released + avail ≤ j := unreleased
    exact inv.slots j value (by omega) found

/-- What a consumer step leaves: the invariant, and an empty ring if it found nothing. -/
theorem consumerStep_inv {k : Nat} (small : k ≤ 63) (inv : s.Inv (2 ^ k) start ch ct) {limit : Nat} {e : RingEvent}
    {t : SpscRing T} (taken : s.consumerStep (2 ^ k) limit = (e, t)) :
    (∃ ct', t.Inv (2 ^ k) start ch ct') ∧ e ≠ .refused ∧
      ∀ l, e = .nothing l → l = 0 ∨ t.accepted.length = t.released := by
  have size : 2 ^ k < 2 ^ 64 := Nat.pow_lt_pow_right (by omega) (by omega)
  have consumer := inv.consumer
  have published := inv.tailBehind
  unfold consumerStep at taken
  split at taken <;> rename_i phase <;> rw [phase] at consumer
  · split at taken
    · rename_i looksEmpty
      cases taken
      exact ⟨⟨ct, { inv with consumer := ⟨consumer, rfl⟩ }⟩, nofun, nofun⟩
    · rename_i differ
      rw [inv.cachedTail] at taken
      obtain ⟨kept, accepted, found⟩ := takeAvailable_inv inv size (le_refl ct) published consumer taken
      refine ⟨kept, accepted, fun l nothing => ?_⟩
      rcases found l nothing with zero | ⟨drained, -, -⟩
      · exact .inl zero
      · rw [inv.head, inv.cachedTail, drained] at differ
        exact absurd rfl differ
  · obtain ⟨between, rfl⟩ := consumer
    rw [inv.tail] at taken
    obtain ⟨kept, accepted, found⟩ := takeAvailable_inv inv size published (le_refl _) between taken
    refine ⟨kept, accepted, fun l nothing => ?_⟩
    rcases found l nothing with zero | ⟨drained, same, released⟩
    · exact .inl zero
    · exact .inr (by rw [same, released, drained])
  · cases taken
    exact ⟨⟨ct, readSlot_inv small inv consumer⟩, nofun, nofun⟩
  · cases taken
    exact ⟨⟨ct, storeHead_inv inv consumer⟩, nofun, nofun⟩

end Steps

end SpscRing

end Itch
