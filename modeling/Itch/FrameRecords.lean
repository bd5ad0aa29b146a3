import Itch.Frames
import Itch.MessageTypes
import Itch.Records
import Mathlib.Algebra.BigOperators.Group.Finset.Piecewise
import Mathlib.Data.Fintype.BigOperators

namespace Itch

/-- One record under `for_each_frame`: the scan so far, and what the callback has made of the frames. -/
def scanRecord {τ : Type} (f : τ → Frame → τ) (s : FrameScan × τ) (msg : List UInt8) : FrameScan × τ :=
  if msg.length = 0 then ({ s.1 with empty := s.1.empty + 1 }, s.2)
  else if kMessageLength (byteAt msg 0) ≠ msg.length then ({ s.1 with malformed := s.1.malformed + 1 }, s.2)
  else ({ s.1 with frames := s.1.frames + 1 }, f s.2 ⟨msg⟩)

/-- `for_each_frame` is the stream loop with another body. -/
theorem forEachFrameFrom_eq {τ : Type} (f : τ → Frame → τ) (buf : List UInt8) (fuel off : Nat) (r : FrameScan) (t : τ) :
    forEachFrameFrom f buf fuel off r t =
      let (s, stop) := parseStreamFrom (scanRecord f) buf fuel off (r, t)
      ({ s.1 with consumed := stop }, s.2) := by
  induction fuel generalizing off r t with
  | zero => rfl
  | succ fuel ih =>
    unfold forEachFrameFrom parseStreamFrom
    dsimp only
    by_cases field : off + 2 ≤ buf.length
    · rw [if_pos field, if_pos field]
      by_cases short : buf.length < off + 2 + (loadBe16 buf off).toNat
      · rw [if_pos short, if_pos short]
      · rw [if_neg short, if_neg short, scanRecord, slice_length (Nat.le_of_not_lt short), ih, ih, ih]
        split
        · rfl
        · split <;> rfl
    · rw [if_neg field, if_neg field]

theorem forEachFrame_eq {τ : Type} (f : τ → Frame → τ) (buf : List UInt8) (t : τ) :
    forEachFrame f buf t =
      ({ ((messages buf).foldl (scanRecord f) ({}, t)).1 with consumed := consumedFrom buf buf.length 0 },
        ((messages buf).foldl (scanRecord f) ({}, t)).2) := by
  rw [forEachFrame, forEachFrameFrom_eq, parseStreamFrom_eq]
  rfl

/-- The counters of which each record adds to one. -/
inductive Counter where
  | messages
  | unknownType
  | badLength
  | empty
  deriving DecidableEq

def ParserStats.count (s : ParserStats) : Counter → Nat
  | .messages => s.messages
  | .unknownType => s.unknownType
  | .badLength => s.badLength
  | .empty => s.empty

/-- All messages, by type. -/
def ParserStats.byTypeSum (s : ParserStats) : Nat := ∑ type : Fin 256, s.byType (.ofFin type)

/-- The counter of a record. -/
def counter (msg : List UInt8) : Counter :=
  if msg.length = 0 then .empty
  else if kMessageLength (byteAt msg 0) = msg.length then .messages
  else if kMessageLength (byteAt msg 0) = 0 then .unknownType
  else .badLength

namespace Parser

variable {σ τ : Type} {H : Handler σ} {p : Parser σ} {msg : List UInt8}

theorem counter_messages : counter msg = .messages ↔ WellFormed msg := by
  unfold counter WellFormed
  split
  · rename_i none
    refine ⟨fun other => ?_, fun formed => absurd none formed.1⟩
    cases other
  · rename_i some
    split
    · rename_i known
      exact ⟨fun _ => ⟨some, known⟩, fun _ => rfl⟩
    · rename_i other
      refine ⟨fun same => ?_, fun formed => absurd formed.2 other⟩
      split at same <;> cases same

theorem tally_count (stats : ParserStats) (msg : List UInt8) (c : Counter) :
    (tally stats msg).count c = stats.count c + if counter msg = c then 1 else 0 := by
  unfold tally counter
  split
  · cases c <;> rfl
  · split
    · cases c <;> rfl
    · split <;> cases c <;> rfl

/-- The handler has a say in `filtered` only. -/
theorem parse_stats (p : Parser σ) (msg : List UInt8) :
    ∃ filtered, (p.parse H msg).stats = { tally p.stats msg with filtered } := by
  by_cases formed : WellFormed msg
  · cases wants : H.wants with
    | none =>
      rw [parse_all formed wants]
      exact ⟨_, rfl⟩
    | some wants =>
      rw [parse_filter formed wants]
      split <;> exact ⟨_, rfl⟩
  · rw [parse_malformed formed]
    exact ⟨_, rfl⟩

theorem parse_count (p : Parser σ) (msg : List UInt8) (c : Counter) :
    (p.parse H msg).stats.count c = p.stats.count c + if counter msg = c then 1 else 0 := by
  obtain ⟨filtered, stats⟩ := parse_stats (H := H) p msg
  rw [← tally_count, stats]
  cases c <;> rfl

theorem counted_byTypeSum (stats : ParserStats) (type : UInt8) : (counted stats type).byTypeSum = stats.byTypeSum + 1 := by
  have one : ∀ t : Fin 256, (counted stats type).byType (.ofFin t) =
      stats.byType (.ofFin t) + if t = type.toFin then 1 else 0 := by
    intro t
    have same : UInt8.ofFin t = type ↔ t = type.toFin := by
      constructor
      · rintro rfl
        rfl
      · rintro rfl
        rfl
    change (if UInt8.ofFin t = type then stats.byType (.ofFin t) + 1 else stats.byType (.ofFin t)) = _
    by_cases here : t = type.toFin
    · rw [if_pos here, if_pos (same.mpr here)]
    · rw [if_neg here, if_neg (here ∘ same.mp), Nat.add_zero]
  unfold ParserStats.byTypeSum
  rw [Finset.sum_congr rfl fun t _ => one t, Finset.sum_add_distrib, Finset.sum_ite_eq' Finset.univ type.toFin,
    if_pos (Finset.mem_univ _)]

theorem tally_byTypeSum (stats : ParserStats) (msg : List UInt8) :
    (tally stats msg).byTypeSum = stats.byTypeSum + if counter msg = .messages then 1 else 0 := by
  have sum := counted_byTypeSum stats (byteAt msg 0)
  obtain ⟨messages, unknownType, badLength, empty, filtered, byType⟩ := stats
  unfold tally counter
  split
  · exact (Nat.add_zero _).symm
  · split
    · exact sum
    · split <;> exact (Nat.add_zero _).symm

theorem parse_byTypeSum (p : Parser σ) (msg : List UInt8) :
    (p.parse H msg).stats.byTypeSum = p.stats.byTypeSum + if counter msg = .messages then 1 else 0 := by
  obtain ⟨filtered, stats⟩ := parse_stats (H := H) p msg
  rw [← tally_byTypeSum, stats]
  rfl

/-- Each record adds one to one counter. -/
theorem foldl_count (msgs : List (List UInt8)) (p : Parser σ) (c : Counter) :
    (msgs.foldl (parse H) p).stats.count c = p.stats.count c + (msgs.map counter).count c := by
  induction msgs generalizing p with
  | nil => rfl
  | cons msg msgs ih =>
    simp only [List.foldl_cons, ih, parse_count, List.map_cons, List.count_cons, beq_iff_eq]
    omega

theorem foldl_byTypeSum (msgs : List (List UInt8)) (p : Parser σ) :
    (msgs.foldl (parse H) p).stats.byTypeSum = p.stats.byTypeSum + (msgs.map counter).count .messages := by
  induction msgs generalizing p with
  | nil => exact (Nat.add_zero _).symm
  | cons msg msgs ih =>
    simp only [List.foldl_cons, ih, parse_byTypeSum, List.map_cons, List.count_cons, beq_iff_eq]
    omega

end Parser

theorem scanRecord_eq {τ : Type} (f : τ → Frame → τ) (r : FrameScan) (t : τ) (msg : List UInt8) :
    scanRecord f (r, t) msg =
      ({ r with
          frames := r.frames + if counter msg = .messages then 1 else 0
          malformed := r.malformed + ((if counter msg = .unknownType then 1 else 0) + if counter msg = .badLength then 1 else 0)
          empty := r.empty + if counter msg = .empty then 1 else 0 },
        if counter msg = .messages then f t ⟨msg⟩ else t) := by
  unfold scanRecord counter
  split
  · rfl
  · split
    · split <;> rfl
    · rename_i known
      rw [if_pos (not_not.mp known)]
      rfl

/-- The scan counts as the parser does, and the callback gets the well-formed records. -/
theorem foldl_scanRecord {τ : Type} (f : τ → Frame → τ) (msgs : List (List UInt8)) (r : FrameScan) (t : τ) :
    msgs.foldl (scanRecord f) (r, t) =
      ({ r with
          frames := r.frames + (msgs.map counter).count .messages
          malformed := r.malformed + ((msgs.map counter).count .unknownType + (msgs.map counter).count .badLength)
          empty := r.empty + (msgs.map counter).count .empty },
        ((msgs.filter Parser.WellFormed).map Frame.mk).foldl f t) := by
  induction msgs generalizing r t with
  | nil => rfl
  | cons msg msgs ih =>
    rw [List.foldl_cons, scanRecord_eq, ih]
    simp only [List.map_cons, List.count_cons, beq_iff_eq, List.filter_cons, decide_eq_true_eq, ← Parser.counter_messages]
    refine Prod.ext ?_ ?_
    · simp only [FrameScan.mk.injEq, true_and]
      omega
    · dsimp only
      split <;> rfl

namespace Parser

variable {σ τ : Type}

/-- Parsing `msg` adds one to `c` and leaves the other counters alone. -/
def Counts (H : Handler σ) (msg : List UInt8) (c : Counter) : Prop :=
  ∀ (p : Parser σ) d, (p.parse H msg).stats.count d = p.stats.count d + if c = d then 1 else 0

theorem counts_iff {H : Handler σ} (p : Parser σ) {msg : List UInt8} {c : Counter} : Counts H msg c ↔ c = counter msg := by
  constructor
  · intro counts
    by_contra other
    have one := counts p c
    rw [parse_count p msg c, if_pos rfl, if_neg (Ne.symm other)] at one
    omega
  · rintro rfl p d
    exact parse_count p msg d

/-- What `parse_stream` and `for_each_frame` make of `buf`, whose records are `records`. -/
structure SameRecords (H : Handler σ) (p : Parser σ) (f : τ → Frame → τ) (t : τ) (buf : List UInt8)
    (records : List (List UInt8)) : Prop where
  small : ∀ msg ∈ records, msg.length < 2 ^ 16
  front : records.flatMap framed <+: buf
  consumed : (p.parseStream H buf).2 = (records.flatMap framed).length
  longest : ∀ others : List (List UInt8), (∀ msg ∈ others, msg.length < 2 ^ 16) → others.flatMap framed <+: buf →
    (others.flatMap framed).length ≤ (p.parseStream H buf).2 ∧ others <+: records
  consumed_eq : (forEachFrame f buf t).1.consumed = (p.parseStream H buf).2
  parsed : (p.parseStream H buf).1 = records.foldl (parse H) p
  counted : ∀ msg ∈ records, ∃! c, Counts H msg c
  formed : ∀ msg ∈ records, WellFormed msg ↔ Counts H msg .messages
  frames : (forEachFrame f buf t).2 = ((records.filter WellFormed).map Frame.mk).foldl f t
  messages_eq : (p.parseStream H buf).1.stats.messages = p.stats.messages + (forEachFrame f buf t).1.frames
  malformed_eq : (p.parseStream H buf).1.stats.unknownType + (p.parseStream H buf).1.stats.badLength =
    p.stats.unknownType + p.stats.badLength + (forEachFrame f buf t).1.malformed
  empty_eq : (p.parseStream H buf).1.stats.empty = p.stats.empty + (forEachFrame f buf t).1.empty
  byType_eq : (p.parseStream H buf).1.stats.byTypeSum + p.stats.messages =
    p.stats.byTypeSum + (p.parseStream H buf).1.stats.messages
  header : ∀ msg ∈ records, WellFormed msg → ∃ M ∈ MessageType.all, M.kLength = msg.length ∧
    (Frame.mk msg).type = ascii M.kType ∧ (Frame.mk msg).locate = (M.decode msg).locate ∧
      (Frame.mk msg).tracking = (M.decode msg).tracking ∧ (Frame.mk msg).timestamp = (M.decode msg).timestamp

theorem forEachFrame_counts (f : τ → Frame → τ) (t : τ) (buf : List UInt8) :
    (forEachFrame f buf t).1.frames = ((messages buf).map counter).count .messages ∧
      (forEachFrame f buf t).1.malformed =
        ((messages buf).map counter).count .unknownType + ((messages buf).map counter).count .badLength ∧
      (forEachFrame f buf t).1.empty = ((messages buf).map counter).count .empty := by
  have scanned := forEachFrame_eq f buf t
  rw [foldl_scanRecord] at scanned
  rw [scanned]
  exact ⟨Nat.zero_add _, Nat.zero_add _, Nat.zero_add _⟩

/-- The two loops accept the same records, whatever the buffer, the handler and the callback. -/
theorem sameRecords (H : Handler σ) (p : Parser σ) (f : τ → Frame → τ) (t : τ) (buf : List UInt8) :
    SameRecords H p f t buf (messages buf) := by
  have records := records_messages buf
  have bytes := records.bytes (Nat.zero_le _)
  have parsed : p.parseStream H buf = ((messages buf).foldl (parse H) p, consumedFrom buf buf.length 0) :=
    parseStream_eq (parse H) buf p
  have scanned := forEachFrame_eq f buf t
  rw [foldl_scanRecord] at scanned
  obtain ⟨frames, malformed, empty⟩ := forEachFrame_counts f t buf
  have stats := foldl_count (H := H) (messages buf) p
  have after : (p.parseStream H buf).1 = (messages buf).foldl (parse H) p := congrArg Prod.fst parsed
  rw [← after] at stats
  constructor
  case small => exact bytes.2
  case front =>
    rw [← bytes.1]
    exact List.take_prefix _ _
  case consumed =>
    rw [parsed, ← bytes.1, slice_length]
    · rfl
    · rw [Nat.zero_add]
      exact records.inside (Nat.zero_le _)
  case longest =>
    rintro others small ⟨rest, here⟩
    rw [parsed]
    have other := @Records.of_bytes buf 0 _ _ here.symm small
    rw [Nat.zero_add] at other
    exact records.longest (cutAt_consumed buf) other
  case consumed_eq => rw [scanned, parsed]
  case parsed => exact after
  case counted => exact fun msg _ => ⟨counter msg, (counts_iff p).mpr rfl, fun c counts => (counts_iff p).mp counts⟩
  case formed => exact fun msg _ => counter_messages.symm.trans (eq_comm.trans (counts_iff p).symm)
  case frames => rw [scanned]
  case messages_eq => exact (stats .messages).trans (congrArg _ frames.symm)
  case malformed_eq =>
    have unknownType : (p.parseStream H buf).1.stats.unknownType = p.stats.unknownType + _ := stats .unknownType
    have badLength : (p.parseStream H buf).1.stats.badLength = p.stats.badLength + _ := stats .badLength
    omega
  case empty_eq => exact (stats .empty).trans (congrArg _ empty.symm)
  case byType_eq =>
    have sum := foldl_byTypeSum (H := H) (messages buf) p
    have messages : (p.parseStream H buf).1.stats.messages = p.stats.messages + _ := stats .messages
    rw [← after] at sum
    omega
  case header =>
    intro msg _ formed
    obtain ⟨M, member, type, length⟩ := MessageType.kMessageLength_eq _ (formed.2.trans_ne formed.1)
    exact ⟨M, member, length.symm.trans formed.2, type.symm, rfl, rfl, rfl⟩

end Parser

end Itch
