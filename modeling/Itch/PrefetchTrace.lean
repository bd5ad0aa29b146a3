import Itch.ReadsValue
import Itch.Records

namespace Itch

/-- A call that a stream loop makes, with the bounds of its record. -/
inductive StreamCall where
  | parse (r : Record)
  | prefetch (r : Record)

namespace StreamCall

def parsed : StreamCall → Option Record
  | parse r => some r
  | prefetch _ => none

def prefetched : StreamCall → Option Record
  | parse _ => none
  | prefetch r => some r

end StreamCall

/-- A parser and the calls made so far. -/
structure Tracing (σ : Type) where
  parser : Parser σ
  calls : List StreamCall := []

/-- The loop of `parse_stream` from `off` on, with `turn` for a record. -/
def streamFrom {τ : Type} (turn : τ → Record → τ) (buf : List UInt8) : Nat → Nat → τ → τ × Nat
  | 0, off, t => (t, off)
  | fuel + 1, off, t =>
    if off + 2 ≤ buf.length then
      let n := (loadBe16 buf off).toNat
      if buf.length < off + 2 + n then (t, off)
      else streamFrom turn buf fuel (off + 2 + n) (turn t ⟨off + 2, n⟩)
    else (t, off)

namespace Tracing

variable {σ : Type} (H : Handler σ) (prefetch : σ → List UInt8 → σ) (buf : List UInt8)

def parse (t : Tracing σ) (r : Record) : Tracing σ :=
  { parser := t.parser.parse H (r.message buf), calls := t.calls ++ [.parse r] }

def hint (t : Tracing σ) (r : Record) : Tracing σ :=
  { parser := { t.parser with handler := prefetch t.parser.handler (r.message buf) }, calls := t.calls ++ [.prefetch r] }

def parseStream (t : Tracing σ) : Tracing σ × Nat := streamFrom (parse H buf) buf buf.length 0 t

/-- Prefetches the record at `ahead` if it is complete. -/
def prefetchNext (s : Tracing σ × Nat) : Tracing σ × Nat :=
  let (t, ahead) := s
  if buf.length < ahead + 2 then s else
  let n := (loadBe16 buf ahead).toNat
  if buf.length < ahead + 2 + n then s else
  (t.hint prefetch buf ⟨ahead + 2, n⟩, ahead + 2 + n)

/-- A turn of the loop with the lookahead. -/
def turn (s : Tracing σ × Nat) (r : Record) : Tracing σ × Nat := prefetchNext prefetch buf (s.1.parse H buf r, s.2)

def parseStreamPrefetch (distance : Nat) (t : Tracing σ) : Tracing σ × Nat :=
  match H.prefetch with
  | none => t.parseStream H buf
  | some prefetch =>
    if distance = 0 then t.parseStream H buf else
    let s := (prefetchNext prefetch buf)^[distance] (t, 0)
    let (s, off) := streamFrom (turn H prefetch buf) buf buf.length 0 s
    (s.1, off)

end Tracing

section Forget

variable {σ τ υ : Type} {buf : List UInt8}

/-- Without the bounds of the records, the loop is that of the parser. -/
theorem streamFrom_forget (forget : τ → υ) (parse : υ → List UInt8 → υ) {turn : τ → Record → τ}
    (same : ∀ t r, forget (turn t r) = parse (forget t) (r.message buf)) (fuel off : Nat) (t : τ) :
    (forget (streamFrom turn buf fuel off t).1, (streamFrom turn buf fuel off t).2) =
      parseStreamFrom parse buf fuel off (forget t) := by
  induction fuel generalizing off t with
  | zero => rfl
  | succ fuel ih =>
    simp only [streamFrom, parseStreamFrom]
    by_cases field : off + 2 ≤ buf.length
    · by_cases short : buf.length < off + 2 + (loadBe16 buf off).toNat
      · simp only [if_pos field, if_pos short]
      · simp only [if_pos field, if_neg short, ih, same]
        rfl
    · simp only [if_neg field]

namespace Tracing

variable (H : Handler σ) (prefetch : σ → List UInt8 → σ)

/-- A traced parser and its lookahead, without the trace. -/
def untraced (s : Tracing σ × Nat) : Parser σ × Nat := (s.1.parser, s.2)

theorem parseStream_forget (buf : List UInt8) (t : Tracing σ) :
    untraced (t.parseStream H buf) = t.parser.parseStream H buf :=
  streamFrom_forget parser (Parser.parse H) (fun _ _ => rfl) buf.length 0 t

theorem prefetchNext_forget (s : Tracing σ × Nat) :
    untraced (prefetchNext prefetch buf s) = Parser.prefetchNext prefetch buf (untraced s) := by
  obtain ⟨t, ahead⟩ := s
  unfold prefetchNext Parser.prefetchNext untraced
  dsimp only
  split
  · rfl
  · split <;> rfl

theorem parseStreamPrefetch_forget (buf : List UInt8) (distance : Nat) (t : Tracing σ) :
    untraced (t.parseStreamPrefetch H buf distance) = t.parser.parseStreamPrefetch H distance buf := by
  unfold parseStreamPrefetch Parser.parseStreamPrefetch
  cases H.prefetch with
  | none => exact parseStream_forget H buf t
  | some prefetch =>
    dsimp only
    split
    · exact parseStream_forget H buf t
    · have first : untraced ((prefetchNext prefetch buf)^[distance] (t, 0)) =
          (Parser.prefetchNext prefetch buf)^[distance] (t.parser, 0) :=
        (Function.Semiconj.iterate_right (f := untraced) (prefetchNext_forget prefetch) distance) (t, 0)
      have loop := streamFrom_forget untraced (fun s msg => Parser.prefetchNext prefetch buf (s.1.parse H msg, s.2))
        (fun s r => prefetchNext_forget prefetch (s.1.parse H buf r, s.2)) buf.length 0
        ((prefetchNext prefetch buf)^[distance] (t, 0))
      rw [first] at loop
      rw [Itch.parseStream, ← loop]
      rfl

end Tracing

end Forget

/-- From `off` to `stop`, `buf` is the records at `rs`. -/
inductive RecordsAt (buf : List UInt8) : Nat → List Record → Nat → Prop
  | nil (off : Nat) : RecordsAt buf off [] off
  | cons {off stop : Nat} {rs : List Record} (complete : off + 2 + (loadBe16 buf off).toNat ≤ buf.length)
      (rest : RecordsAt buf (off + 2 + (loadBe16 buf off).toNat) rs stop) :
      RecordsAt buf off (⟨off + 2, (loadBe16 buf off).toNat⟩ :: rs) stop

section RecordsAt

variable {buf : List UInt8} {off stop : Nat} {rs : List Record}

/-- The complete records of a buffer, with their bounds. -/
theorem Records.recordsAt {msgs : List (List UInt8)} (records : Records buf off msgs stop) :
    ∃ rs, RecordsAt buf off rs stop ∧ rs.map (fun r => r.message buf) = msgs := by
  induction records with
  | nil off => exact ⟨[], .nil off, rfl⟩
  | cons complete rest ih =>
    obtain ⟨rs, here, same⟩ := ih
    exact ⟨_ :: rs, .cons complete here, congrArg (List.cons _) same⟩

theorem exists_recordsAt (buf : List UInt8) : ∃ rs stop, RecordsAt buf 0 rs stop ∧ CutAt buf stop := by
  obtain ⟨rs, here, -⟩ := (records_messages buf).recordsAt
  exact ⟨rs, _, here, cutAt_consumed buf⟩

theorem RecordsAt.complete (here : RecordsAt buf off rs stop) : ∀ r ∈ rs, r.Complete buf := by
  induction here with
  | nil off => exact fun r member => by cases member
  | cons complete rest ih => exact List.forall_mem_cons.mpr ⟨⟨Nat.le_add_left 2 _, rfl, complete⟩, ih⟩

/-- The loop takes its turn with the complete records in order and stops at the cut one. -/
theorem streamFrom_eq {τ : Type} {turn : τ → Record → τ} (here : RecordsAt buf off rs stop) (cut : CutAt buf stop)
    {fuel : Nat} (enough : buf.length ≤ off + fuel) (t : τ) : streamFrom turn buf fuel off t = (rs.foldl turn t, stop) := by
  induction here generalizing fuel t with
  | nil off =>
    cases fuel with
    | zero => rfl
    | succ fuel =>
      rw [streamFrom]
      split
      · exact if_pos cut
      · rfl
  | cons complete rest ih =>
    cases fuel with
    | zero => omega
    | succ fuel =>
      rw [streamFrom, if_pos (by omega)]
      dsimp only
      rw [if_neg (by omega)]
      exact ih cut (by omega) _

end RecordsAt

/-- The records parsed, and those prefetched, in order. -/
def parses (calls : List StreamCall) : List Record := calls.filterMap StreamCall.parsed

def prefetches (calls : List StreamCall) : List Record := calls.filterMap StreamCall.prefetched

section Calls

variable (calls : List StreamCall) (r : Record)

@[simp] theorem parses_parse : parses (calls ++ [.parse r]) = parses calls ++ [r] := List.filterMap_append

@[simp] theorem parses_prefetch : parses (calls ++ [.prefetch r]) = parses calls :=
  List.filterMap_append.trans (List.append_nil _)

@[simp] theorem prefetches_parse : prefetches (calls ++ [.parse r]) = prefetches calls :=
  List.filterMap_append.trans (List.append_nil _)

@[simp] theorem prefetches_prefetch : prefetches (calls ++ [.prefetch r]) = prefetches calls ++ [r] := List.filterMap_append

/-- What is left of a trace without its prefetch calls. -/
theorem filter_parsed : calls.filter (fun call => call.parsed.isSome) = (parses calls).map .parse := by
  induction calls with
  | nil => rfl
  | cons call calls ih => cases call with
    | parse r => exact congrArg (List.cons (StreamCall.parse r)) ih
    | prefetch r => exact ih

end Calls

/-- Whenever one of the `total` records is about to be parsed, the lookahead is
`distance` records on, or at the end. -/
def Paced (distance total : Nat) (calls : List StreamCall) : Prop :=
  ∀ before r after, calls = before ++ .parse r :: after →
    (prefetches before).length = min total ((parses before).length + distance)

section Paced

variable {distance total : Nat} {calls : List StreamCall}

theorem paced_nil : Paced distance total [] := fun _ _ _ split => by simp at split

/-- A trace cut at a call is cut there already before its last call, unless it is the last call. -/
theorem cut_snoc {last call : StreamCall} {before after : List StreamCall} (split : calls ++ [last] = before ++ call :: after) :
    (calls = before ∧ last = call) ∨ ∃ after', calls = before ++ call :: after' := by
  rcases List.eq_nil_or_concat after with rfl | ⟨after', last', rfl⟩
  · exact .inl (by simpa using List.append_inj' split rfl)
  · rw [List.concat_eq_append, ← List.cons_append, ← List.append_assoc] at split
    exact .inr ⟨after', (List.append_inj' split rfl).1⟩

theorem Paced.prefetch (paced : Paced distance total calls) (r : Record) : Paced distance total (calls ++ [.prefetch r]) := by
  intro before r' after split
  rcases cut_snoc split with ⟨-, last⟩ | ⟨after', here⟩
  · cases last
  · exact paced before r' after' here

theorem Paced.parse (paced : Paced distance total calls)
    (ahead : (prefetches calls).length = min total ((parses calls).length + distance)) (r : Record) :
    Paced distance total (calls ++ [.parse r]) := by
  intro before r' after split
  rcases cut_snoc split with ⟨rfl, -⟩ | ⟨after', here⟩
  · exact ahead
  · exact paced before r' after' here

end Paced

namespace Tracing

variable {σ : Type} (H : Handler σ) (prefetch : σ → List UInt8 → σ) {buf : List UInt8} {distance stop m j : Nat}
  {rs : List Record} {s : Tracing σ × Nat}

/-- `m` records are prefetched, as far as there are any, and `j` are parsed. -/
structure Ahead (buf : List UInt8) (distance : Nat) (rs : List Record) (stop m j : Nat) (s : Tracing σ × Nat) : Prop where
  here : RecordsAt buf s.2 (rs.drop m) stop
  prefetched : prefetches s.1.calls = rs.take m
  parsed : parses s.1.calls = rs.take j
  paced : Paced distance rs.length s.1.calls

section Ahead

variable (cut : CutAt buf stop)
include cut

theorem Ahead.prefetchNext (ahead : Ahead buf distance rs stop m j s) :
    Ahead buf distance rs stop (m + 1) j (prefetchNext prefetch buf s) := by
  obtain ⟨t, off⟩ := s
  obtain ⟨here, prefetched, parsed, paced⟩ := ahead
  dsimp only at here prefetched parsed paced
  have next : rs.drop (m + 1) = (rs.drop m).tail := (List.tail_drop ..).symm
  have more : rs.take (m + 1) = rs.take m ++ (rs.drop m).head?.toList := by rw [List.take_add_one, List.head?_drop]
  generalize rs.drop m = back at here next more
  cases here with
  | nil =>
    have same : Tracing.prefetchNext prefetch buf (t, stop) = (t, stop) := by
      unfold Tracing.prefetchNext
      dsimp only
      split
      · rfl
      · exact if_pos cut
    rw [same]
    refine ⟨?_, ?_, parsed, paced⟩
    · rw [next]
      exact .nil stop
    · rw [more, prefetched]
      exact (List.append_nil _).symm
  | cons complete rest =>
    have step : Tracing.prefetchNext prefetch buf (t, off) =
        (t.hint prefetch buf ⟨off + 2, (loadBe16 buf off).toNat⟩, off + 2 + (loadBe16 buf off).toNat) := by
      unfold Tracing.prefetchNext
      dsimp only
      rw [if_neg (by omega), if_neg (by omega)]
    rw [step]
    refine ⟨?_, ?_, (parses_prefetch ..).trans parsed, paced.prefetch _⟩
    · rw [next]
      exact rest
    · rw [more, ← prefetched]
      exact prefetches_prefetch ..

theorem Ahead.first (records : RecordsAt buf 0 rs stop) (p : Parser σ) (n : Nat) :
    Ahead buf distance rs stop n 0 ((Tracing.prefetchNext prefetch buf)^[n] (⟨p, []⟩, 0)) := by
  induction n with
  | zero => exact ⟨records, rfl, rfl, paced_nil⟩
  | succ n ih =>
    rw [Function.iterate_succ_apply']
    exact ih.prefetchNext prefetch cut

theorem Ahead.turn {front back : List Record} {r : Record}
    (ahead : Ahead buf distance (front ++ r :: back) stop (front.length + distance) front.length s) :
    Ahead buf distance (front ++ r :: back) stop (front.length + 1 + distance) (front.length + 1) (turn H prefetch buf s r) := by
  have level : (prefetches s.1.calls).length = min (front ++ r :: back).length ((parses s.1.calls).length + distance) := by
    rw [ahead.prefetched, ahead.parsed, List.take_left, List.length_take, Nat.min_comm]
  have parsed : Ahead buf distance (front ++ r :: back) stop (front.length + distance) (front.length + 1)
      (s.1.parse H buf r, s.2) := by
    refine ⟨ahead.here, (prefetches_parse ..).trans ahead.prefetched, (parses_parse ..).trans ?_, ahead.paced.parse level r⟩
    rw [ahead.parsed, List.take_left, List.take_length_add_append]
    rfl
  have next := parsed.prefetchNext prefetch cut
  rwa [Nat.add_right_comm] at next

theorem Ahead.loop {front : List Record} (back : List Record)
    (ahead : Ahead buf distance (front ++ back) stop (front.length + distance) front.length s) :
    Ahead buf distance (front ++ back) stop ((front ++ back).length + distance) (front ++ back).length
      (back.foldl (Tracing.turn H prefetch buf) s) := by
  induction back generalizing front s with
  | nil => simpa only [List.append_nil, List.foldl_nil] using ahead
  | cons r back ih =>
    have next := ahead.turn H prefetch cut
    rw [List.append_cons] at next ⊢
    exact ih (by rwa [List.length_append])

end Ahead

theorem parseStream_trace (cut : CutAt buf stop) (records : RecordsAt buf 0 rs stop) (t : Tracing σ) :
    (t.parseStream H buf).1.calls = t.calls ++ rs.map .parse ∧ (t.parseStream H buf).2 = stop := by
  have calls : ∀ (rs : List Record) (t : Tracing σ), (rs.foldl (parse H buf) t).calls = t.calls ++ rs.map .parse := by
    intro rs
    induction rs with
    | nil => exact fun t => (List.append_nil _).symm
    | cons r rs ih => exact fun t => (ih _).trans (List.append_assoc ..)
  rw [parseStream, streamFrom_eq records cut (Nat.le_add_left _ 0)]
  exact ⟨calls rs t, rfl⟩

theorem parseStreamPrefetch_trace {prefetch : σ → List UInt8 → σ} (hints : H.prefetch = some prefetch)
    (positive : 0 < distance) (cut : CutAt buf stop) (records : RecordsAt buf 0 rs stop) (p : Parser σ) :
    ∃ s, parseStreamPrefetch H buf distance ⟨p, []⟩ = (s.1, stop) ∧
      Ahead buf distance rs stop (rs.length + distance) rs.length s := by
  have start : Ahead buf distance ([] ++ rs) stop (0 + distance) 0 ((prefetchNext prefetch buf)^[distance] (⟨p, []⟩, 0)) := by
    rw [Nat.zero_add]
    exact Ahead.first prefetch cut records p distance
  refine ⟨_, ?_, start.loop H prefetch cut rs⟩
  unfold parseStreamPrefetch
  rw [hints]
  dsimp only
  rw [if_neg (by omega), streamFrom_eq records cut (Nat.le_add_left _ 0)]

end Tracing

/-- A relation of handlers that neither their calls nor their filters tell apart, and that
no prefetch leaves. -/
structure Hidden {σ : Type} (H : Handler σ) (same : σ → σ → Prop) : Prop where
  on : ∀ {s s'} message, same s s' → same (H.on s message) (H.on s' message)
  wants : ∀ {wants}, H.wants = some wants → ∀ {s s'}, same s s' → wants s = wants s'
  prefetch : ∀ {prefetch}, H.prefetch = some prefetch → ∀ {s s'} record, same s s' → same (prefetch s record) s'

namespace Hidden

variable {σ : Type} {H : Handler σ} {same : σ → σ → Prop} {buf : List UInt8} (hidden : Hidden H same)
include hidden

/-- Two parsers with the same counters and handlers that look the same. -/
def Parsers (same : σ → σ → Prop) (p p' : Parser σ) : Prop := p.stats = p'.stats ∧ same p.handler p'.handler

theorem parse {p p' : Parser σ} (look : Parsers same p p') (msg : List UInt8) :
    Parsers same (p.parse H msg) (p'.parse H msg) := by
  obtain ⟨stats, handler⟩ := look
  by_cases formed : Parser.WellFormed msg
  · cases filter : H.wants with
    | none =>
      rw [Parser.parse_all formed filter, Parser.parse_all formed filter, Parsers, stats]
      exact ⟨rfl, hidden.on _ handler⟩
    | some wants =>
      rw [Parser.parse_filter formed filter, Parser.parse_filter formed filter, stats, hidden.wants filter handler]
      split
      · exact ⟨rfl, hidden.on _ handler⟩
      · exact ⟨rfl, handler⟩
  · rw [Parser.parse_malformed formed, Parser.parse_malformed formed, Parsers, stats]
    exact ⟨rfl, handler⟩

variable {prefetch : σ → List UInt8 → σ} (hints : H.prefetch = some prefetch)
include hints

theorem prefetchNext {s : Parser σ × Nat} {p : Parser σ} (look : Parsers same s.1 p) :
    Parsers same (Parser.prefetchNext prefetch buf s).1 p := by
  obtain ⟨q, ahead⟩ := s
  unfold Parser.prefetchNext
  dsimp only
  split
  · exact look
  · split
    · exact look
    · exact ⟨look.1, hidden.prefetch hints _ look.2⟩

theorem iterate (n : Nat) {s : Parser σ × Nat} {p : Parser σ} (look : Parsers same s.1 p) :
    Parsers same ((Parser.prefetchNext prefetch buf)^[n] s).1 p := by
  induction n with
  | zero => exact look
  | succ n ih =>
    rw [Function.iterate_succ_apply']
    exact hidden.prefetchNext hints ih

/-- A handler that hides its hints ends as without a lookahead. -/
theorem parseStreamPrefetch (buf : List UInt8) (distance : Nat) {p : Parser σ} (look : same p.handler p.handler) :
    Parsers same (p.parseStreamPrefetch H distance buf).1 (p.parseStream H buf).1 := by
  have plain : ∀ (msgs : List (List UInt8)) {q q' : Parser σ}, Parsers same q q' →
      Parsers same (msgs.foldl (Parser.parse H) q) (msgs.foldl (Parser.parse H) q') := by
    intro msgs q q' start
    exact List.foldl_rel start fun msg _ _ _ => (hidden.parse · msg)
  unfold Parser.parseStreamPrefetch
  rw [hints]
  dsimp only
  split
  · rw [Parser.parseStream, Itch.parseStream_eq]
    exact plain _ ⟨rfl, look⟩
  · have turn : ∀ msg (s : Parser σ × Nat) (q : Parser σ), Parsers same s.1 q →
        Parsers same (Parser.prefetchNext prefetch buf (s.1.parse H msg, s.2)).1 (q.parse H msg) :=
      fun msg s q now => hidden.prefetchNext hints (hidden.parse now msg)
    rw [Parser.parseStream, Itch.parseStream_eq, Itch.parseStream_eq]
    exact List.foldl_rel (r := fun (s : Parser σ × Nat) q => Parsers same s.1 q) (hidden.iterate hints distance ⟨rfl, look⟩)
      fun msg _ => turn msg

end Hidden

/-- The lookahead changes nothing but the hints: its trace without them is the plain one,
each complete record is prefetched once, in order, and `distance` records ahead of the one
that is parsed. -/
theorem Tracing.lookahead {σ : Type} (H : Handler σ) {prefetch : σ → List UInt8 → σ} (hints : H.prefetch = some prefetch)
    {distance : Nat} (positive : 0 < distance) (p : Parser σ) (buf : List UInt8) :
    ∃ plain ahead rs stop, parseStream H buf ⟨p, []⟩ = plain ∧ parseStreamPrefetch H buf distance ⟨p, []⟩ = ahead ∧
      RecordsAt buf 0 rs stop ∧ CutAt buf stop ∧
      ahead.1.calls.filter (fun call => call.parsed.isSome) = plain.1.calls ∧ ahead.2 = plain.2 ∧
      plain.1.calls = rs.map .parse ∧ plain.2 = stop ∧
      prefetches ahead.1.calls = rs ∧ Paced distance rs.length ahead.1.calls ∧
      untraced plain = p.parseStream H buf ∧ untraced ahead = p.parseStreamPrefetch H distance buf ∧
      ∀ same, Hidden H same → same p.handler p.handler →
        ahead.1.parser.stats = plain.1.parser.stats ∧ same ahead.1.parser.handler plain.1.parser.handler := by
  obtain ⟨rs, stop, records, cut⟩ := exists_recordsAt buf
  obtain ⟨calls, off⟩ := parseStream_trace H cut records ⟨p, []⟩
  obtain ⟨s, run, here, prefetched, parsed, paced⟩ := parseStreamPrefetch_trace H hints positive cut records p
  have plain := parseStream_forget H buf ⟨p, []⟩
  have ahead := parseStreamPrefetch_forget H buf distance ⟨p, []⟩
  rw [List.nil_append] at calls
  rw [List.take_of_length_le (by omega)] at prefetched parsed
  refine ⟨_, _, rs, stop, rfl, rfl, records, cut, ?_, ?_, calls, off, ?_, ?_, plain, ahead, fun same hidden look => ?_⟩
  · rw [calls, filter_parsed, run, parsed]
  · rw [off, run]
  · rw [run, prefetched]
  · rwa [run]
  · have end_ := hidden.parseStreamPrefetch hints buf distance look
    rw [← ahead, ← plain] at end_
    exact end_

/-- Counts the hints and the messages. -/
def hintCounter : Handler (Nat × Nat) where
  on s _ := (s.1, s.2 + 1)
  prefetch := some fun s _ => (s.1 + 1, s.2)

/-- An empty record, one of an unknown type and the start of a third. -/
theorem Tracing.lookahead_sample :
    (parseStreamPrefetch hintCounter [0, 0, 0, 1, 33, 0, 9] 1 ⟨{ handler := (0, 0) }, []⟩).2 =
        (parseStream hintCounter [0, 0, 0, 1, 33, 0, 9] ⟨{ handler := (0, 0) }, []⟩).2 ∧
      (prefetches (parseStreamPrefetch hintCounter [0, 0, 0, 1, 33, 0, 9] 1 ⟨{ handler := (0, 0) }, []⟩).1.calls).length = 2 := by
  obtain ⟨plain, ahead, rs, stop, same, same', -, -, -, off, calls, -, hints, -⟩ :=
    Tracing.lookahead hintCounter rfl Nat.one_pos { handler := (0, 0) } [0, 0, 0, 1, 33, 0, 9]
  have two : plain.1.calls.length = 2 := by
    rw [← same]
    rfl
  rw [calls, List.length_map] at two
  rw [same, same', off, hints]
  exact ⟨rfl, two⟩

end Itch
