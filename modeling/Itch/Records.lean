import Itch.Stream

namespace Itch

/-- From `off` to `stop`, `buf` is the records of `msgs`. -/
inductive Records (buf : List UInt8) : Nat → List (List UInt8) → Nat → Prop
  | nil (off : Nat) : Records buf off [] off
  | cons {off stop : Nat} {msgs : List (List UInt8)} (complete : off + 2 + (loadBe16 buf off).toNat ≤ buf.length)
      (rest : Records buf (off + 2 + (loadBe16 buf off).toNat) msgs stop) :
      Records buf off (slice buf (off + 2) (loadBe16 buf off).toNat :: msgs) stop

/-- No complete record starts at `off`. -/
def CutAt (buf : List UInt8) (off : Nat) : Prop := buf.length < off + 2 + (loadBe16 buf off).toNat

variable {buf : List UInt8} {off stop : Nat} {msgs : List (List UInt8)}

theorem records_messagesFrom (buf : List UInt8) (fuel off : Nat) :
    Records buf off (messagesFrom buf fuel off) (consumedFrom buf fuel off) := by
  induction fuel generalizing off with
  | zero => exact .nil off
  | succ fuel ih =>
    simp only [messagesFrom, consumedFrom]
    by_cases field : off + 2 ≤ buf.length
    · by_cases short : buf.length < off + 2 + (loadBe16 buf off).toNat
      · simp only [if_pos field, if_pos short]
        exact .nil off
      · simp only [if_pos field, if_neg short]
        exact .cons (Nat.le_of_not_lt short) (ih _)
    · simp only [if_neg field]
      exact .nil off

theorem cutAt_consumedFrom {fuel off : Nat} (enough : buf.length ≤ off + fuel) : CutAt buf (consumedFrom buf fuel off) := by
  induction fuel generalizing off with
  | zero =>
    rw [consumedFrom, CutAt]
    omega
  | succ fuel ih =>
    simp only [consumedFrom]
    by_cases field : off + 2 ≤ buf.length
    · by_cases short : buf.length < off + 2 + (loadBe16 buf off).toNat
      · simp only [if_pos field, if_pos short]
        exact short
      · simp only [if_pos field, if_neg short]
        exact ih (by omega)
    · simp only [if_neg field]
      rw [CutAt]
      omega

theorem records_messages (buf : List UInt8) : Records buf 0 (messages buf) (consumedFrom buf buf.length 0) :=
  records_messagesFrom buf buf.length 0

theorem cutAt_consumed (buf : List UInt8) : CutAt buf (consumedFrom buf buf.length 0) :=
  cutAt_consumedFrom (Nat.le_add_left _ 0)

namespace Records

theorem le (records : Records buf off msgs stop) : off ≤ stop := by
  induction records with
  | nil off => exact le_rfl
  | cons complete rest ih => omega

theorem inside (records : Records buf off msgs stop) (start : off ≤ buf.length) : stop ≤ buf.length := by
  induction records with
  | nil off => exact start
  | cons complete rest ih => exact ih complete

theorem trans {last : Nat} {more : List (List UInt8)} (records : Records buf off msgs stop)
    (rest : Records buf stop more last) : Records buf off (msgs ++ more) last := by
  induction records with
  | nil off => exact rest
  | cons complete tail ih => exact .cons complete (ih rest)

theorem eq_nil (records : Records buf off msgs off) : msgs = [] := by
  cases records with
  | nil => rfl
  | cons complete rest =>
    have step := rest.le
    omega

/-- Records that reach a cut one go as far as any. -/
theorem longest {stop' : Nat} {msgs' : List (List UInt8)} (records : Records buf off msgs stop) (cut : CutAt buf stop)
    (other : Records buf off msgs' stop') : stop' ≤ stop ∧ msgs' <+: msgs := by
  induction records generalizing msgs' with
  | nil off =>
    cases other with
    | nil => exact ⟨le_rfl, List.prefix_rfl⟩
    | cons complete rest => exact absurd complete (Nat.not_le_of_lt cut)
  | cons complete rest ih =>
    cases other with
    | nil => exact ⟨by have := rest.le; omega, List.nil_prefix⟩
    | cons complete' rest' =>
      obtain ⟨far, front⟩ := ih cut rest'
      exact ⟨far, (List.prefix_cons_inj _).mpr front⟩

theorem unique {stop' : Nat} {msgs' : List (List UInt8)} (records : Records buf off msgs stop) (cut : CutAt buf stop)
    (other : Records buf off msgs' stop') (cut' : CutAt buf stop') : msgs' = msgs ∧ stop' = stop := by
  obtain ⟨far, front⟩ := records.longest cut other
  obtain ⟨far', front'⟩ := other.longest cut' records
  exact ⟨front.eq_of_length_le front'.length_le, Nat.le_antisymm far far'⟩

end Records

/-- Where the stream loop stops and what it parses, by what the buffer holds. -/
theorem parseStream_records {σ : Type} {parse : σ → List UInt8 → σ} (records : Records buf 0 msgs stop) (cut : CutAt buf stop)
    (s : σ) : parseStream parse buf s = (msgs.foldl parse s, stop) := by
  obtain ⟨same, end_⟩ := records.unique cut (records_messages buf) (cutAt_consumed buf)
  rw [parseStream_eq, same, end_]

section Slice

variable {start len : Nat}

/-- The records of a slice are records of the buffer. -/
theorem Records.of_slice (fits : start + len ≤ buf.length) (records : Records (slice buf start len) off msgs stop) :
    Records buf (start + off) msgs (start + stop) := by
  have length := slice_length fits
  induction records with
  | nil off => exact .nil (start + off)
  | @cons off stop msgs complete rest ih =>
    rw [length] at complete
    have number := @loadBe16_slice buf start off len (by omega)
    rw [number] at complete ih ⊢
    rw [slice_slice buf start (by omega), ← Nat.add_assoc]
    exact .cons (by omega) (by simpa only [Nat.add_assoc] using ih)

end Slice

/-- A record as it lies in a buffer. -/
def framed (msg : List UInt8) : List UInt8 := BigEndian.encode 2 msg.length ++ msg

theorem framed_length (msg : List UInt8) : (framed msg).length = 2 + msg.length := by
  rw [framed, List.length_append, BigEndian.encode_length]

/-- One record: its length field and its message. -/
theorem framed_slice (complete : off + 2 + (loadBe16 buf off).toNat ≤ buf.length) :
    framed (slice buf (off + 2) (loadBe16 buf off).toNat) = slice buf off (2 + (loadBe16 buf off).toNat) := by
  have field : (slice buf off 2).length = 2 := slice_length (by omega)
  have number := BigEndian.encode_decode (slice buf off 2)
  rw [field, ← loadBe16_toNat] at number
  rw [framed, slice_length complete, number, ← slice_append]

theorem Records.bytes (records : Records buf off msgs stop) (inside : off ≤ buf.length) :
    slice buf off (stop - off) = msgs.flatMap framed ∧ ∀ msg ∈ msgs, msg.length < 2 ^ 16 := by
  induction records with
  | nil off =>
    refine ⟨?_, fun msg member => by cases member⟩
    rw [Nat.sub_self, slice, List.take_zero]
    rfl
  | @cons off stop msgs complete rest ih =>
    obtain ⟨tail, small⟩ := ih complete
    have width : stop - off = 2 + (loadBe16 buf off).toNat + (stop - (off + 2 + (loadBe16 buf off).toNat)) := by
      have step := rest.le
      omega
    refine ⟨?_, List.forall_mem_cons.mpr ⟨?_, small⟩⟩
    · rw [List.flatMap_cons, framed_slice complete, ← tail, width, slice_append, Nat.add_assoc]
    · rw [slice_length complete]
      exact (loadBe16 buf off).toNat_lt

/-- Records that lie in a buffer are records of it. -/
theorem Records.of_bytes {rest : List UInt8} (here : buf.drop off = msgs.flatMap framed ++ rest)
    (small : ∀ msg ∈ msgs, msg.length < 2 ^ 16) : Records buf off msgs (off + (msgs.flatMap framed).length) := by
  induction msgs generalizing off with
  | nil => exact .nil off
  | cons msg msgs ih =>
    obtain ⟨fits, small⟩ := List.forall_mem_cons.mp small
    rw [List.flatMap_cons, framed, List.append_assoc, List.append_assoc] at here
    have number : (loadBe16 buf off).toNat = msg.length := by
      rw [loadBe16_toNat, slice, here, List.take_left' (BigEndian.encode_length ..), BigEndian.decode_encode_of_lt fits]
    have tail : buf.drop (off + 2) = msg ++ (msgs.flatMap framed ++ rest) := by
      rw [← List.drop_drop, here, List.drop_left' (BigEndian.encode_length ..)]
    have length := congrArg List.length here
    have body : slice buf (off + 2) (loadBe16 buf off).toNat = msg := by rw [slice, tail, number, List.take_left]
    have next : buf.drop (off + 2 + (loadBe16 buf off).toNat) = msgs.flatMap framed ++ rest := by
      rw [← List.drop_drop, tail, number, List.drop_left]
    rw [List.length_drop, List.length_append, List.length_append, BigEndian.encode_length] at length
    have records := Records.cons (by omega) (ih next small)
    rw [body, number] at records
    rw [List.flatMap_cons, List.length_append, framed_length]
    simpa only [Nat.add_assoc] using records

end Itch
