import Itch.PrefetchPipeline
import Itch.Records

namespace Itch

/-- A parser with the messages that its `parse` was called with. -/
structure Logged (σ : Type) where
  parser : Parser σ
  calls : List (List UInt8) := []

namespace Logged

variable {σ : Type} (H : Handler σ)

def parse (r : Logged σ) (msg : List UInt8) : Logged σ := ⟨r.parser.parse H msg, r.calls ++ [msg]⟩

def parseStream (r : Logged σ) (buf : List UInt8) : Logged σ × Nat := Itch.parseStream (parse H) buf r

def prefetchNext (prefetch : σ → List UInt8 → σ) (buf : List UInt8) (s : Logged σ × Nat) : Logged σ × Nat :=
  let (r, ahead) := s
  let (parser, ahead) := Parser.prefetchNext prefetch buf (r.parser, ahead)
  ({ r with parser }, ahead)

/-- `parse_stream_prefetch`, with its log. -/
def parseStreamPrefetch (distance : Nat) (r : Logged σ) (buf : List UInt8) : Logged σ × Nat :=
  match H.prefetch with
  | none => r.parseStream H buf
  | some prefetch =>
    if distance = 0 then r.parseStream H buf else
    let s := (prefetchNext prefetch buf)^[distance] (r, 0)
    let (s, off) := Itch.parseStream (fun s msg => prefetchNext prefetch buf (s.1.parse H msg, s.2)) buf s
    (s.1, off)

end Logged

/-- The options of a replay. -/
structure ReplayConfig where
  latency : Bool := false
  prefetch : Int := 16

section Replay

variable {σ : Type} (H : Handler σ) (running : Nat → Bool) (buf : List UInt8)

def parseSlice (prefetch : Int) (slice : List UInt8) (r : Logged σ) : Logged σ × Nat :=
  if prefetch = 8 then r.parseStreamPrefetch H 8 slice
  else if prefetch = 16 then r.parseStreamPrefetch H 16 slice
  else if prefetch = 32 then r.parseStreamPrefetch H 32 slice
  else r.parseStream H slice

/-- The slice loop from its turn `turn` on, which is at `off`. A turn goes on while `running`. -/
def replaySlices (size : Nat) (prefetch : Int) : Nat → Nat → Nat → Logged σ → Option (Logged σ × Nat)
  | 0, _, _, _ => none
  | fuel + 1, turn, off, r =>
    if off < buf.length ∧ running turn then
      let n := min size (buf.length - off)
      let (r, used) := parseSlice H prefetch (slice buf off n) r
      if used = 0 then some (r, off) else replaySlices size prefetch fuel (turn + 1) (off + used) r
    else some (r, off)

/-- The record loop of the latency mode. -/
def replayRecords : Nat → Nat → Nat → Logged σ → Option (Logged σ × Nat)
  | 0, _, _, _ => none
  | fuel + 1, turn, off, r =>
    if off + 2 ≤ buf.length ∧ running turn then
      let n := (loadBe16 buf off).toNat
      if buf.length < off + 2 + n then some (r, off)
      else replayRecords fuel (turn + 1) (off + 2 + n) (r.parse H (slice buf (off + 2) n))
    else some (r, off)

/-- 64 MiB. -/
def kSlice : Nat := 64 <<< 20

/-- Replays the file `buf`: the parser and the offset where the loop stops. `none` would be
a loop that takes more turns than the file has bytes, and one more. -/
def runReplay (size : Nat) (cfg : ReplayConfig) (r : Logged σ) : Option (Logged σ × Nat) :=
  if cfg.latency then replayRecords H running buf (buf.length + 1) 0 0 r
  else replaySlices H running buf size cfg.prefetch (buf.length + 1) 0 0 r

end Replay

/-! The log is only a log. -/

namespace Logged

variable {σ : Type} {H : Handler σ}

theorem foldl_parse (msgs : List (List UInt8)) (r : Logged σ) :
    msgs.foldl (parse H) r = ⟨msgs.foldl (Parser.parse H) r.parser, r.calls ++ msgs⟩ := by
  induction msgs generalizing r with
  | nil => rw [List.foldl_nil, List.foldl_nil, List.append_nil]
  | cons msg msgs ih => rw [List.foldl_cons, ih, parse, List.append_assoc, List.singleton_append, List.foldl_cons]

theorem parseStream_eq (r : Logged σ) (buf : List UInt8) :
    r.parseStream H buf =
      (⟨(r.parser.parseStream H buf).1, r.calls ++ messages buf⟩, (r.parser.parseStream H buf).2) := by
  rw [parseStream, Itch.parseStream_eq, foldl_parse, Parser.parseStream, Itch.parseStream_eq]

theorem prefetchNext_fst {prefetch : σ → List UInt8 → σ} (pure : ∀ s record, prefetch s record = s) (buf : List UInt8)
    (s : Logged σ × Nat) : (prefetchNext prefetch buf s).1 = s.1 := by
  obtain ⟨r, ahead⟩ := s
  have quiet := Parser.prefetchNext_fst pure buf (r.parser, ahead)
  exact congrArg (Logged.mk · r.calls) quiet

theorem parseStreamPrefetch_eq (pure : Parser.PureHints H) (distance : Nat) (r : Logged σ) (buf : List UInt8) :
    r.parseStreamPrefetch H distance buf = r.parseStream H buf := by
  unfold parseStreamPrefetch
  cases hints : H.prefetch with
  | none => rfl
  | some prefetch =>
    have quiet := prefetchNext_fst (pure prefetch hints) buf
    dsimp only
    split
    · rfl
    · exact parseStream_lookahead quiet (parse H) distance buf (r, 0)

end Logged

section Replay

variable {σ : Type} {H : Handler σ} (pure : Parser.PureHints H) {running : Nat → Bool}
  (uninterrupted : ∀ turn, running turn = true)
  (buf : List UInt8)

include pure in
theorem parseSlice_eq (prefetch : Int) (slice : List UInt8) (r : Logged σ) :
    parseSlice H prefetch slice r = r.parseStream H slice := by
  have ahead := fun distance => Logged.parseStreamPrefetch_eq pure distance r slice
  unfold parseSlice
  rw [ahead, ahead, ahead]
  split
  · rfl
  · split
    · rfl
    · split <;> rfl

/-- A slice in which no record is complete is the tail of the file: the largest record
fits a slice. -/
theorem cutAt_of_slice {size off : Nat} (large : 65537 ≤ size) (inside : off ≤ buf.length)
    (cut : CutAt (slice buf off (min size (buf.length - off))) 0) : CutAt buf off := by
  have length := @slice_length buf off (min size (buf.length - off)) (by omega)
  have small := (loadBe16 (slice buf off (min size (buf.length - off))) 0).toNat_lt
  rw [CutAt, length] at cut
  rw [CutAt]
  rcases Nat.lt_or_ge (buf.length - off) 2 with short | field
  · omega
  · have number := @loadBe16_slice buf off 0 (min size (buf.length - off)) (by omega)
    rw [Nat.add_zero] at number
    rw [number] at cut small
    omega

include pure uninterrupted in
/-- From any offset the slice loop parses the records up to the first that is cut. -/
theorem replaySlices_records {size : Nat} (large : 65537 ≤ size) (prefetch : Int) {fuel off : Nat} (turn : Nat)
    (inside : off ≤ buf.length) (enough : buf.length - off < fuel) (r : Logged σ) :
    ∃ msgs stop, Records buf off msgs stop ∧ CutAt buf stop ∧
      replaySlices H running buf size prefetch fuel turn off r = some (msgs.foldl (Logged.parse H) r, stop) := by
  induction fuel generalizing turn off r with
  | zero => omega
  | succ fuel ih =>
    unfold replaySlices
    dsimp only
    rw [uninterrupted, parseSlice_eq pure, Logged.parseStream, parseStream_eq]
    dsimp only
    by_cases more : off < buf.length
    · rw [if_pos ⟨more, rfl⟩]
      have fits : off + min size (buf.length - off) ≤ buf.length := by omega
      generalize within : slice buf off (min size (buf.length - off)) = part
      have length : part.length = min size (buf.length - off) := by rw [← within, slice_length fits]
      have records := records_messages part
      have cut := cutAt_consumed part
      rw [← within] at records
      have here := records.of_slice fits
      rw [within, Nat.add_zero] at here
      rw [within] at records
      generalize consumedFrom part part.length 0 = used at records cut here ⊢
      by_cases none : used = 0
      · subst none
        rw [if_pos rfl, records.eq_nil]
        rw [← within] at cut
        exact ⟨[], off, .nil off, cutAt_of_slice buf large inside cut, rfl⟩
      · rw [if_neg none]
        have stop := here.inside inside
        obtain ⟨msgs, last, rest, cut, result⟩ := ih (turn + 1) stop (by omega) ((messages part).foldl (Logged.parse H) r)
        exact ⟨messages part ++ msgs, last, here.trans rest, cut, by rw [result, List.foldl_append]⟩
    · rw [if_neg fun both => more both.1]
      refine ⟨[], off, .nil off, ?_, rfl⟩
      rw [CutAt]
      omega

include uninterrupted in
theorem replayRecords_records {fuel off : Nat} (turn : Nat) (inside : off ≤ buf.length) (enough : buf.length - off < fuel)
    (r : Logged σ) :
    ∃ msgs stop, Records buf off msgs stop ∧ CutAt buf stop ∧
      replayRecords H running buf fuel turn off r = some (msgs.foldl (Logged.parse H) r, stop) := by
  induction fuel generalizing turn off r with
  | zero => omega
  | succ fuel ih =>
    unfold replayRecords
    rw [uninterrupted]
    dsimp only
    by_cases field : off + 2 ≤ buf.length
    · rw [if_pos ⟨field, rfl⟩]
      by_cases short : buf.length < off + 2 + (loadBe16 buf off).toNat
      · rw [if_pos short]
        exact ⟨[], off, .nil off, short, rfl⟩
      · rw [if_neg short]
        have complete := Nat.le_of_not_lt short
        obtain ⟨msgs, last, rest, cut, result⟩ := ih (turn + 1) complete (by omega)
          (r.parse H (slice buf (off + 2) (loadBe16 buf off).toNat))
        exact ⟨_, last, .cons complete rest, cut, result⟩
    · rw [if_neg fun both => field both.1]
      refine ⟨[], off, .nil off, ?_, rfl⟩
      rw [CutAt]
      omega

end Replay

/-- However a file is replayed, with slices that hold the largest record, the parser is
called with the messages of one `parse_stream` over the whole file and the loop stops
where that stops. -/
theorem runReplay_eq {B : Build} {τ : Type} (S : Sink B τ) {size : Nat} (large : 65537 ≤ size) {running : Nat → Bool}
    (uninterrupted : ∀ turn, running turn = true) (cfg : ReplayConfig) (buf : List UInt8) (r : Logged (BookBuilder B τ)) :
    runReplay (BookBuilder.handler S) running buf size cfg r = some (r.parseStream (BookBuilder.handler S) buf) ∧
    r.parseStream (BookBuilder.handler S) buf =
      (⟨(r.parser.parseStream (BookBuilder.handler S) buf).1, r.calls ++ messages buf⟩,
        (r.parser.parseStream (BookBuilder.handler S) buf).2) := by
  refine ⟨?_, r.parseStream_eq buf⟩
  have stream : ∀ {msgs stop}, Records buf 0 msgs stop → CutAt buf stop →
      r.parseStream (BookBuilder.handler S) buf = (msgs.foldl (Logged.parse (BookBuilder.handler S)) r, stop) :=
    fun records cut => parseStream_records records cut r
  have start := Nat.zero_le buf.length
  unfold runReplay
  split
  · obtain ⟨msgs, stop, records, cut, result⟩ :=
      replayRecords_records uninterrupted buf (H := BookBuilder.handler S) 0 start (Nat.lt_succ_self _) r
    rw [stream records cut]
    exact result
  · obtain ⟨msgs, stop, records, cut, result⟩ :=
      replaySlices_records (BookBuilder.handler_pure S) uninterrupted buf large cfg.prefetch 0 start (Nat.lt_succ_self _) r
    rw [stream records cut]
    exact result

theorem runReplay_eq_sample :
    (runReplay (BookBuilder.handler {}) (fun _ => true) [0, 1, 83, 0, 2, 7] kSlice {}
      { parser := { handler := { engine := .create ⟨.avx2, 4⟩ 16, sink := () } } }).map Prod.snd = some 3 := by
  rw [(runReplay_eq (B := ⟨.avx2, 4⟩) (τ := Unit) {} (by decide : 65537 ≤ kSlice) (fun _ => rfl) {} _ _).1,
    Logged.parseStream_eq,
    Parser.parseStream, parseStream_eq]
  rfl

end Itch
