import Itch.CodecRoundTrip
import Itch.PrefetchPipeline
import Itch.ReadsStream

namespace Itch

open Traced

variable {σ τ : Type} {buf : List UInt8} {r : Record}

/-- The message of a record. -/
def Record.message (r : Record) (buf : List UInt8) : List UInt8 := slice buf r.start r.len

namespace Record

theorem value_byte {i : Nat} (inside : i < r.len) : (r.byte i).value buf = byteAt (r.message buf) i :=
  (byteAt_slice buf r.start inside).symm

theorem value_be16 {i : Nat} (inside : i + 2 ≤ r.len) : (r.be16 i).value buf = loadBe16 (r.message buf) i :=
  (loadBe16_slice buf r.start inside).symm

theorem value_be32 {i : Nat} (inside : i + 4 ≤ r.len) : (r.be32 i).value buf = loadBe32 (r.message buf) i := by
  rw [loadBe32, message, slice_slice buf r.start inside]
  rfl

theorem value_be64 {i : Nat} (inside : i + 8 ≤ r.len) : (r.be64 i).value buf = loadBe64 (r.message buf) i := by
  rw [loadBe64, message, slice_slice buf r.start inside]
  rfl

theorem value_timestamp (inside : kHeaderLength ≤ r.len) :
    (r.be48Overread 5).value buf = loadBe48Overread (r.message buf) 5 := by
  rw [loadBe48Overread, ← value_be64 (i := 3) inside]
  rfl

theorem value_decodeValue {offset : Nat} {t : FieldType} (inside : offset + t.size ≤ r.len) :
    (r.decodeValue offset t).value buf = Itch.decodeValue (r.message buf) offset t := by
  cases t with
  | char => exact value_byte inside
  | u16 => exact value_be16 inside
  | u32 => exact value_be32 inside
  | u64 => exact value_be64 inside
  | alpha n some =>
    funext i
    have here : offset + i < r.len := (Nat.add_lt_add_left i.isLt offset).trans_le inside
    exact (congrArg (byteAt buf) (Nat.add_assoc ..)).trans (value_byte here)

theorem value_decodeFields {fs : List Field} {next stop : Nat} (tiles : TileFrom next fs stop) (fits : stop ≤ r.len) :
    (r.decodeFields fs).value buf = Itch.decodeFields (r.message buf) fs := by
  induction fs generalizing next with
  | nil => rfl
  | cons f fs ih =>
    have inside : f.offset + f.type.size ≤ r.len := (tile_length tiles.2).trans fits
    exact congr (congrArg Prod.mk (value_decodeValue inside)) (ih tiles.2)

theorem value_decode {M : MessageType} (member : M ∈ MessageType.all) (fits : M.kLength ≤ r.len) :
    (r.decode M).value buf = M.decode (r.message buf) := by
  have header := (header_inside member).trans fits
  have eleven : 11 ≤ r.len := header
  have locate := @value_be16 buf r 1 (by omega)
  have tracking := @value_be16 buf r 3 (by omega)
  have timestamp := @value_timestamp buf r header
  have values := @value_decodeFields buf r _ _ _ (M.fieldsTileMessage_iff.mp (MessageType.all_tile M member)) fits
  rw [MessageType.decode, ← locate, ← tracking, ← timestamp, ← values]
  rfl

theorem message_length {r : Record} (inside : r.start + r.len ≤ buf.length) : (r.message buf).length = r.len :=
  slice_length inside

end Record

/-- A decoded message as dispatch hands it to a handler. -/
def Struct.message {M : MessageType} (m : Struct M) : Message := .decode (M.encode m (List.replicate M.kLength 0))

theorem Struct.message_decode {M : MessageType} (member : M ∈ MessageType.all) {msg : List UInt8}
    (length : msg.length = M.kLength) (type : byteAt msg 0 = ascii M.kType) : (M.decode msg).message = .decode msg := by
  rw [message, MessageType.encode_decode (MessageType.all_tile M member) length type (List.length_replicate ..)]

/-- The listener of a handler: it takes every type. -/
def Handler.listener (H : Handler σ) : Listener σ where
  on _ := some fun s m => H.on s m.message
  wants := H.wants

namespace Parser

variable (H : Handler σ)

theorem value_dispatch (p : Parser σ) {type : UInt8} (inside : r.start + r.len ≤ buf.length)
    (first : byteAt (r.message buf) 0 = type) (length : kMessageLength type = r.len) (some : r.len ≠ 0) :
    (p.dispatchReads H.listener type r).value buf = p.dispatch H (r.message buf) := by
  obtain ⟨M', member', same', -⟩ := MessageType.kMessageLength_eq type (length.trans_ne some)
  unfold dispatchReads
  cases found : MessageType.all.find? fun M => ascii M.kType = type with
  | none =>
    have differs := List.find?_eq_none.mp found M' member'
    exact absurd (decide_eq_true same') differs
  | some M =>
    have member := List.mem_of_find?_eq_some found
    have same : ascii M.kType = type :=
      of_decide_eq_true (List.find?_some (p := fun M : MessageType => ascii M.kType = type) found)
    have size : M.kLength = r.len := by rw [← MessageType.kMessageLength_of member, same, length]
    have decoded := Struct.message_decode member ((Record.message_length inside).trans size.symm) (first.trans same.symm)
    rw [dispatch, ← decoded, ← Record.value_decode member size.le]
    rfl

theorem value_parse (p : Parser σ) (inside : r.start + r.len ≤ buf.length) :
    (p.parseReads H.listener r).value buf = p.parse H (r.message buf) := by
  have size := Record.message_length inside
  unfold parseReads parse
  rw [size]
  split
  · rfl
  · rename_i some
    have first := @Record.value_byte buf r 0 (Nat.pos_of_ne_zero some)
    rw [value_bind, first]
    dsimp only
    split
    · split <;> rfl
    · rename_i known
      have length := not_not.mp known
      have dispatched := value_dispatch H { p with stats := counted p.stats (byteAt (r.message buf) 0) } inside rfl length some
      have filter : H.listener.wants = H.wants := rfl
      rw [filter]
      cases H.wants with
      | none => exact dispatched
      | some wants =>
        have long : 11 ≤ r.len := header_le length some
        have locate := @Record.value_be16 buf r 1 (by omega)
        change Traced.value (Record.be16 r 1 >>= fun locate => _) buf = _
        rw [value_bind, locate]
        dsimp only
        split
        · exact dispatched
        · rfl

end Parser

theorem value_readLength (off : Nat) : (readLength off).value buf = (loadBe16 buf off).toNat := rfl

/-- The traced loop computes what the loop of its body's value computes. -/
theorem value_stream {reads : σ → Record → Reading σ} {parse : σ → List UInt8 → σ}
    (body : ∀ s (r : Record), r.start + r.len ≤ buf.length → (reads s r).value buf = parse s (r.message buf))
    (fuel off : Nat) (s : σ) :
    (streamReads reads buf.length fuel off s).value buf = parseStreamFrom parse buf fuel off s := by
  induction fuel generalizing off s with
  | zero => rfl
  | succ fuel ih =>
    unfold streamReads parseStreamFrom
    split
    · change Traced.value (readLength off >>= fun n => _) buf = _
      rw [value_bind, value_readLength]
      dsimp only
      split
      · rfl
      · rename_i fits
        have here := body s ⟨off + 2, (loadBe16 buf off).toNat⟩ (Nat.le_of_not_lt fits)
        change Traced.value (reads s _ >>= fun s => _) buf = _
        rw [value_bind, here]
        exact ih _ _
    · rfl


namespace Parser

variable (H : Handler σ) (p : Parser σ)

theorem value_parseStream : (p.parseStreamReads H.listener buf.length).value buf = p.parseStream H buf :=
  value_stream (fun p _ inside => value_parse H p inside) _ _ p

section Prefetch

variable {prefetch : σ → Record → Reading (List Hint)}

/-- The hints leave the parser alone. -/
theorem value_prefetchNext (s : Parser σ × Nat) :
    ((prefetchNextReads prefetch buf.length s).value buf) = Parser.prefetchNext (fun s _ => s) buf s := by
  obtain ⟨p, ahead⟩ := s
  unfold prefetchNextReads prefetchNext
  dsimp only
  split
  · rfl
  · rw [value_bind, value_readLength]
    split <;> rfl

theorem value_prefetchAhead (distance : Nat) (s : Parser σ × Nat) :
    (prefetchAhead prefetch buf.length distance s).value buf = (Parser.prefetchNext (fun s _ => s) buf)^[distance] s := by
  induction distance generalizing s with
  | zero => rfl
  | succ distance ih =>
    rw [prefetchAhead, value_bind, ih, value_prefetchNext]
    rfl

end Prefetch

/-- With the hints of the book builder, at any distance. -/
theorem value_parseStreamPrefetch (wants : Option (σ → UInt8 → UInt16 → Bool)) (distance : Nat) :
    (p.parseStreamPrefetchReads (H.listener.withHints wants) distance buf.length).value buf = p.parseStream H buf := by
  let quiet : Handler σ := { H with prefetch := some fun s _ => s }
  have plain : p.parseStreamPrefetch quiet distance buf = p.parseStream H buf :=
    parseStreamPrefetch_eq (fun prefetch hints s record => by cases hints; rfl) distance p buf
  rw [← plain, parseStreamPrefetchReads, parseStreamPrefetch]
  change Traced.value (if distance = 0 then _ else _) buf = _
  dsimp only [quiet]
  split
  · exact value_parseStream H p
  · rw [value_bind, value_prefetchAhead, value_bind, @value_stream _ _ _ (fun s msg =>
      prefetchNext (fun s _ => s) buf (s.1.parse H msg, s.2)) fun s r inside => ?_]
    · rfl
    · rw [value_bind, value_prefetchNext]
      exact congrArg (fun p => prefetchNext _ buf (p, s.2)) (value_parse H s.1 inside)


end Parser

/-- What a frame program computes from a frame. -/
def FrameCall.eval (f : Frame) : FrameCall → Nat
  | type => f.type.toNat
  | locate => f.locate.toNat
  | tracking => f.tracking.toNat
  | timestamp => f.timestamp.toNat

def FrameProgram.eval (f : Frame) : FrameProgram τ → τ
  | done t => t
  | call c next => (next (c.eval f)).eval f

theorem value_run {r : Record} (header : kHeaderLength ≤ r.len) (program : FrameProgram τ) :
    (program.run r).value buf = program.eval ⟨r.message buf⟩ := by
  induction program with
  | done t => rfl
  | call c next ih =>
    have eleven : 11 ≤ r.len := header
    have value : (c.reads r).value buf = c.eval ⟨r.message buf⟩ := by
      cases c with
      | type => exact congrArg UInt8.toNat (Record.value_byte (by omega))
      | locate => exact congrArg UInt16.toNat (Record.value_be16 (by omega))
      | tracking => exact congrArg UInt16.toNat (Record.value_be16 (by omega))
      | timestamp => exact congrArg UInt64.toNat (Record.value_timestamp header)
    rw [FrameProgram.run, value_bind, value, ih]
    rfl

theorem value_forEachFrameFrom (f : τ → FrameProgram τ) (fuel off : Nat) (scan : FrameScan) (t : τ) :
    (forEachFrameReadsFrom f buf.length fuel off scan t).value buf =
      forEachFrameFrom (fun t frame => (f t).eval frame) buf fuel off scan t := by
  induction fuel generalizing off scan t with
  | zero => rfl
  | succ fuel ih =>
    unfold forEachFrameReadsFrom forEachFrameFrom
    dsimp only
    split
    · rw [value_bind, value_readLength]
      split
      · rfl
      · rename_i fits
        split
        · exact ih _ _ _
        · rename_i some
          have first := @Record.value_byte buf ⟨off + 2, (loadBe16 buf off).toNat⟩ 0 (Nat.pos_of_ne_zero some)
          rw [value_bind, first]
          change Traced.value (if kMessageLength (byteAt (slice buf _ _) 0) ≠ _ then _ else _) buf = _
          split
          · exact ih _ _ _
          · rename_i known
            rw [value_bind, value_run (header_le (not_not.mp known) some)]
            exact ih _ _ _
    · rfl

theorem value_forEachFrame (f : τ → FrameProgram τ) (t : τ) :
    (forEachFrameReads f t buf.length).value buf = forEachFrame (fun t frame => (f t).eval frame) buf t :=
  value_forEachFrameFrom f _ _ _ t

end Itch
