import Itch.FeedMarket
import Itch.FrameRecords
import Itch.Lib.KeyedSplit
import Itch.LiveReplay
import Itch.MessageTypes
import Itch.SymbolDirectory

namespace Itch

namespace BboCache

variable {ι : Type} [DecidableEq ι]

/-- A whole call of `load` between two stores. It spins as long as the first try fails. -/
def load (r : ι) (s : BboCache ι) : Option BboSnapshot :=
  match ((fun t : CacheEvent ι × BboCache ι => t.2.readerStep r)^[5] (s.readerStep r)).1 with
  | .loaded _ _ out => some out
  | _ => none

/-- A cache that nobody is storing to or loading from. -/
structure Settled (s : BboCache ι) : Prop where
  writer : s.writer = .idle
  readers : ∀ r, s.readers r = .idle
  even : s.seq % 2 = 0

theorem Settled.load {s : BboCache ι} (settled : s.Settled) (r : ι) : s.load r = some s.stored := by
  have even : ¬ s.seq % 2 = 1 := by
    have := settled.even
    omega
  have steps : ((fun t : CacheEvent ι × BboCache ι => t.2.readerStep r)^[5] (s.readerStep r)).1 = .loaded r s.seq s.stored := by
    simp [Function.iterate_succ_apply', readerStep, setReader, settled.readers, even, stored]
  rw [BboCache.load, steps]

omit [DecidableEq ι] in
theorem Settled.store {s : BboCache ι} (settled : s.Settled) (new : BboSnapshot) : (s.store new).Settled := by
  have steps : s.store new = { s with
      seq := (s.seq + 2) % 2 ^ 64, prices := pack new.bidPrice new.askPrice, bidQty := new.bidQty, askQty := new.askQty,
      ts := new.timestamp, stores := s.stores ++ [new] } := by
    simp only [BboCache.store, Function.iterate_succ_apply', Function.iterate_zero, id_eq, writerStep, settled.writer]
  rw [steps]
  refine ⟨settled.writer, settled.readers, ?_⟩
  have := settled.even
  show (s.seq + 2) % 2 ^ 64 % 2 = 0
  omega

end BboCache

/-- The sink of `main`: the publisher with the symbol directory that it fills. -/
structure ListedPublisher where
  pub : Publisher := {}
  dir : SymbolDirectory := {}

namespace ListedPublisher

variable {B : Build} (o : ByteOrder) (accepts : List BookEvent → Bool)

def onBook (e : BookEngine B) (s : ListedPublisher) (m : BookMessage) (u : BookUpdate) : ListedPublisher :=
  { s with pub := s.pub.onBook accepts e m u }

def on (s : ListedPublisher) : Message → ListedPublisher
  | .stockDirectory m => { s with dir := s.dir.on o m }
  | m => { s with pub := s.pub.on m }

def sink : Sink B ListedPublisher where
  onBook := onBook accepts
  on := on o

end ListedPublisher

/-- The parser of `main`. -/
abbrev MainParser (B : Build) := Parser (BookBuilder B ListedPublisher)

/-- What `print_report` prints, but for the kernels' name and what is measured in seconds. -/
structure SessionReport where
  messages : Nat
  byType : List (Char × Nat)
  unknownType : Nat
  badLength : Nat
  empty : Nat
  unknownRef : Nat
  missingLevel : Nat
  overfill : Nat
  crossedUpdates : Nat
  liveEnd : Nat
  livePeak : Nat
  capacity : Nat
  rehashes : Nat
  published : Nat
  dropped : Nat

/-- The types in the order of the report. -/
def reportTypes : List Char := "SRHYLVWKJhAFECXDUPQBINO".toList

/-- What `print_symbol` prints: that the directory has no such symbol, or its book as the cache
shows it. The quantities are cut to 32 bits and the prices are in units of 1/10000. -/
inductive SymbolLine where
  | notInDirectory
  | quote (locate : UInt16) (bidQty bidPrice askQty askPrice : UInt32)
  deriving DecidableEq

namespace MainParser

variable {B : Build}

def create (B : Build) (expectedOrders : Nat) : MainParser B where
  handler := { engine := .create B expectedOrders, sink := {} }

def parse (o : ByteOrder) (accepts : List BookEvent → Bool) (p : MainParser B) (msg : List UInt8) : MainParser B :=
  Parser.parse (BookBuilder.handler (ListedPublisher.sink o accepts)) p msg

/-- Types without messages are not listed. -/
def printReport (p : MainParser B) (consumerEvents : Nat) : SessionReport where
  messages := p.stats.messages
  byType := reportTypes.filterMap fun t =>
    if p.stats.byType (ascii t) ≠ 0 then some (t, p.stats.byType (ascii t)) else none
  unknownType := p.stats.unknownType
  badLength := p.stats.badLength
  empty := p.stats.empty
  unknownRef := p.handler.engine.stats.unknownRef
  missingLevel := p.handler.engine.stats.missingLevel
  overfill := p.handler.engine.stats.overfill
  crossedUpdates := p.handler.sink.pub.crossedUpdates
  liveEnd := p.handler.engine.orders.size
  livePeak := p.handler.sink.pub.peakLive
  capacity := p.handler.engine.orders.table.capacity
  rehashes := p.handler.engine.orders.table.rehashes
  published := consumerEvents
  dropped := p.handler.sink.pub.dropped

/-- The line of a symbol; `none` where the load of the cache would spin. -/
def printSymbol (o : ByteOrder) (p : MainParser B) (sym : List UInt8) : Option SymbolLine :=
  match p.handler.sink.dir.locate o sym with
  | none => some .notInDirectory
  | some locate =>
    ((p.handler.sink.pub.bbo locate).load 0).map fun b =>
      .quote locate b.bidQty.toUInt32 b.bidPrice b.askQty.toUInt32 b.askPrice

end MainParser

/-! What the report says, from the messages alone. -/

/-- The stock directory message that a record holds. -/
def listing (msg : List UInt8) : Option MsgStockDirectory :=
  if Parser.WellFormed msg then
    match Message.decode msg with
    | .stockDirectory m => some m
    | _ => none
  else none

def listings (msgs : List (List UInt8)) : List MsgStockDirectory := msgs.filterMap listing

namespace NaiveEngine

/-- Whether a call names an order that is not live. -/
def misses (n : NaiveEngine) : EngineCall → Bool
  | .add _ _ _ _ _ => false
  | .reduce ref _ => (n.live.find? ref).isNone
  | .remove ref => (n.live.find? ref).isNone
  | .replace oldRef _ _ _ => (n.live.find? oldRef).isNone

/-- Whether a call takes more shares than its order has. -/
def overtakes (n : NaiveEngine) : EngineCall → Bool
  | .reduce ref shares => (n.live.find? ref).any fun o => o.shares < shares
  | _ => false

/-- Whether a record holds a message whose call is such. -/
def calls (such : NaiveEngine → EngineCall → Bool) (n : NaiveEngine) (msg : List UInt8) : Bool :=
  if Parser.WellFormed msg then
    match Message.decode msg with
    | .book m => such n m.call
    | _ => false
  else false

/-- How many records hold a message whose call is such when it comes. -/
def tallyOf (such : NaiveEngine → EngineCall → Bool) (msgs : List (List UInt8)) : Nat :=
  (Runs.outputs parse (calls such) {} msgs).count true

theorem take_counts (n : NaiveEngine) (o : Order) (shares : UInt32) :
    (n.take o shares).unknownRef = n.unknownRef ∧ (n.take o shares).overfill = n.overfill := by
  rw [take]
  split
  · exact ⟨rfl, rfl⟩
  · split <;> exact ⟨rfl, rfl⟩

theorem onLive_counts (n : NaiveEngine) (ref : UInt64) {action : Order → NaiveEngine}
    (keeps : ∀ o, (action o).unknownRef = n.unknownRef ∧ (action o).overfill = n.overfill) :
    (n.onLive ref action).unknownRef = n.unknownRef + (if (n.live.find? ref).isNone then 1 else 0) ∧
      (n.onLive ref action).overfill = n.overfill := by
  rw [onLive]
  cases n.live.find? ref with
  | none => exact ⟨rfl, rfl⟩
  | some o => exact keeps o

theorem apply_counts (n : NaiveEngine) (c : EngineCall) :
    (n.apply c).unknownRef = n.unknownRef + (if n.misses c then 1 else 0) ∧
      (n.apply c).overfill = n.overfill + if n.overtakes c then 1 else 0 := by
  cases c with
  | add locate ref side shares price => exact ⟨rfl, rfl⟩
  | reduce ref shares =>
    rw [apply, onLive, misses, overtakes]
    cases n.live.find? ref with
    | none => exact ⟨rfl, rfl⟩
    | some o =>
      obtain ⟨unknown, overs⟩ := (n.overfilled o shares).take_counts o (min shares o.shares)
      dsimp only
      rw [unknown, overs, overfilled, Option.any_some]
      by_cases more : o.shares < shares
      · rw [if_pos more, decide_eq_true more]
        exact ⟨rfl, rfl⟩
      · rw [if_neg more, decide_eq_false more]
        exact ⟨rfl, rfl⟩
  | remove ref => exact n.onLive_counts ref fun o => ⟨rfl, rfl⟩
  | replace oldRef newRef shares price => exact n.onLive_counts oldRef fun o => ⟨rfl, rfl⟩

theorem parse_counts (n : NaiveEngine) (msg : List UInt8) :
    (n.parse msg).unknownRef = n.unknownRef + (if n.calls misses msg then 1 else 0) ∧
      (n.parse msg).overfill = n.overfill + if n.calls overtakes msg then 1 else 0 := by
  rw [parse, calls, calls]
  split
  · cases Message.decode msg with
    | book m => exact n.apply_counts m.call
    | stockDirectory m => exact ⟨rfl, rfl⟩
    | systemEvent m => exact ⟨rfl, rfl⟩
    | other p => exact ⟨rfl, rfl⟩
  · exact ⟨rfl, rfl⟩

theorem foldl_counts (n : NaiveEngine) (msgs : List (List UInt8)) :
    (msgs.foldl parse n).unknownRef = n.unknownRef + (Runs.outputs parse (calls misses) n msgs).count true ∧
      (msgs.foldl parse n).overfill = n.overfill + (Runs.outputs parse (calls overtakes) n msgs).count true := by
  induction msgs generalizing n with
  | nil => exact ⟨rfl, rfl⟩
  | cons msg msgs ih =>
    obtain ⟨unknown, overs⟩ := n.parse_counts msg
    obtain ⟨unknown', overs'⟩ := ih (n.parse msg)
    rw [List.foldl_cons, unknown', overs', unknown, overs, Runs.outputs, Runs.outputs, List.count_cons, List.count_cons]
    simp only [beq_iff_eq]
    omega

end NaiveEngine

/-- The report is right for these messages, whatever the consumer counted. -/
structure SessionReport.Right (r : SessionReport) (msgs : List (List UInt8)) : Prop where
  messages : r.messages = (msgs.filter Parser.WellFormed).length
  byType : ∀ t k, (t, k) ∈ r.byType ↔
    t ∈ reportTypes ∧ k ≠ 0 ∧ k = (msgs.filter fun msg => Parser.WellFormed msg ∧ byteAt msg 0 = ascii t).length
  total : (r.byType.map Prod.snd).sum = r.messages
  unknownType : r.unknownType = (msgs.map counter).count .unknownType
  badLength : r.badLength = (msgs.map counter).count .badLength
  empty : r.empty = (msgs.map counter).count .empty
  unknownRef : r.unknownRef = NaiveEngine.tallyOf NaiveEngine.misses msgs
  missingLevel : r.missingLevel = 0
  overfill : r.overfill = NaiveEngine.tallyOf NaiveEngine.overtakes msgs
  liveEnd : r.liveEnd = (NaiveEngine.liveAfter msgs).length

/-- The line of a symbol quotes the live orders under the last locate that the symbol was given. -/
def SymbolLine.Right (msgs : List (List UInt8)) (sym : List UInt8) (line : Option SymbolLine) : Prop :=
  match if 8 < sym.length then none else lastLocate (listings msgs) (padded sym) with
  | none => line = some .notInDirectory
  | some locate => ∃ t, Quotes (NaiveEngine.liveAfter msgs) locate t ∧
      line = some (.quote locate t.bidQty.toUInt32 t.bidPrice t.askQty.toUInt32 t.askPrice)

namespace Publisher

variable {B : Build}

/-- Every cache is idle, with an even sequence. -/
def Settled (s : Publisher) : Prop := ∀ locate, (s.bbo locate).Settled

theorem Settled.onBook {s : Publisher} (settled : s.Settled) (accepts : List BookEvent → Bool) (e : BookEngine B)
    (m : BookMessage) (u : BookUpdate) : (s.onBook accepts e m u).Settled := by
  by_cases changed : u.known = true ∧ u.topChanged = true
  · obtain ⟨⟨new, bbo, -⟩, -⟩ := s.onBook_changed accepts e m changed.1 changed.2
    intro locate
    rw [bbo]
    by_cases same : locate = u.locate
    · rw [same, Function.update_self]
      exact (settled _).store new
    · rw [Function.update_of_ne same]
      exact settled locate
  · have bbo : (s.onBook accepts e m u).bbo = s.bbo := by
      by_cases known : u.known = true
      · exact (Publisher.onBook_quiet accepts e s m (Bool.eq_false_iff.mpr fun top => changed ⟨known, top⟩)).1
      · rw [Publisher.onBook.eq_def, if_pos known]
    intro locate
    rw [bbo]
    exact settled locate

theorem Settled.on {s : Publisher} (settled : s.Settled) (m : Message) : (s.on m).Settled := by
  intro locate
  rw [(s.on_quiet m).1]
  exact settled locate

end Publisher

namespace MainParser

variable {B : Build} {o : ByteOrder} {accepts : List BookEvent → Bool} (p : MainParser B)

/-- The parser without the directory. -/
def feed : FeedParser B where
  handler := { engine := p.handler.engine, sink := p.handler.sink.pub }
  stats := p.stats

theorem parse_feed (msg : List UInt8) : (parse o accepts p msg).feed = p.feed.parse accepts msg := by
  rw [parse, FeedParser.parse]
  by_cases formed : Parser.WellFormed msg
  · rw [Parser.parse_all formed rfl, Parser.parse_all formed rfl]
    cases decoded : Message.decode msg with
    | book m =>
      simp only [feed, BookBuilder.handler, BookBuilder.on, BookBuilder.onBookMessage_eq]
      rfl
    | stockDirectory m => rfl
    | systemEvent m => rfl
    | other m => rfl
  · rw [Parser.parse_malformed formed, Parser.parse_malformed formed]
    rfl

theorem parse_dir (msg : List UInt8) : (parse o accepts p msg).handler.sink.dir =
    (listing msg).toList.foldl (SymbolDirectory.on o) p.handler.sink.dir := by
  rw [parse, listing]
  by_cases formed : Parser.WellFormed msg
  · rw [Parser.parse_all formed rfl, if_pos formed]
    cases Message.decode msg with
    | book m =>
      simp only [BookBuilder.handler, BookBuilder.on, BookBuilder.onBookMessage_eq]
      rfl
    | stockDirectory m => rfl
    | systemEvent m => rfl
    | other m => rfl
  · rw [Parser.parse_malformed formed, if_neg formed]
    rfl

theorem parse_settled (settled : p.handler.sink.pub.Settled) (msg : List UInt8) :
    (parse o accepts p msg).handler.sink.pub.Settled := by
  rw [parse]
  by_cases formed : Parser.WellFormed msg
  · rw [Parser.parse_all formed rfl]
    cases Message.decode msg with
    | book m =>
      simp only [BookBuilder.handler, BookBuilder.on, BookBuilder.onBookMessage_eq]
      exact settled.onBook accepts _ m _
    | stockDirectory m => exact settled
    | systemEvent m => exact settled.on (.systemEvent m)
    | other m => exact settled.on (.other m)
  · rw [Parser.parse_malformed formed]
    exact settled

theorem run_feed (msgs : List (List UInt8)) : (msgs.foldl (parse o accepts) p).feed = p.feed.run accepts msgs := by
  induction msgs generalizing p with
  | nil => rfl
  | cons msg msgs ih =>
    rw [List.foldl_cons, ih, parse_feed]
    rfl

theorem run_dir (msgs : List (List UInt8)) : (msgs.foldl (parse o accepts) p).handler.sink.dir =
    (listings msgs).foldl (SymbolDirectory.on o) p.handler.sink.dir := by
  induction msgs generalizing p with
  | nil => rfl
  | cons msg msgs ih =>
    rw [List.foldl_cons, ih, parse_dir, listings, listings, List.filterMap_cons]
    cases listing msg <;> rfl

/-! The counters of the parser. -/

theorem tally_byType (stats : ParserStats) (msg : List UInt8) (type : UInt8) :
    (Parser.tally stats msg).byType type =
      stats.byType type + if Parser.WellFormed msg ∧ byteAt msg 0 = type then 1 else 0 := by
  by_cases formed : Parser.WellFormed msg
  · rw [Parser.tally_formed formed, Parser.counted]
    dsimp only
    by_cases same : type = byteAt msg 0
    · rw [if_pos same, if_pos ⟨formed, same.symm⟩]
    · rw [if_neg same, if_neg fun here => same here.2.symm]
      rfl
  · rw [if_neg fun here => formed here.1, Parser.tally]
    split
    · rfl
    · rename_i some
      rw [if_neg fun known => formed ⟨some, known⟩]
      split <;> rfl

theorem run_byType (msgs : List (List UInt8)) (type : UInt8) :
    (msgs.foldl (parse o accepts) p).stats.byType type =
      p.stats.byType type + (msgs.filter fun msg => Parser.WellFormed msg ∧ byteAt msg 0 = type).length := by
  induction msgs generalizing p with
  | nil => rfl
  | cons msg msgs ih =>
    obtain ⟨filtered, stats⟩ := Parser.parse_stats (H := BookBuilder.handler (ListedPublisher.sink o accepts)) p msg
    have here : (parse o accepts p msg).stats.byType type = (Parser.tally p.stats msg).byType type := by
      rw [parse, stats]
    rw [List.foldl_cons, ih, here, tally_byType, List.filter_cons]
    by_cases counts : Parser.WellFormed msg ∧ byteAt msg 0 = type
    · rw [if_pos counts, if_pos (decide_eq_true counts), List.length_cons]
      omega
    · rw [if_neg counts, if_neg (by simpa using counts), Nat.add_zero]

/-- The report lists all types of messages. -/
theorem type_reported {msg : List UInt8} (formed : Parser.WellFormed msg) : byteAt msg 0 ∈ reportTypes.map ascii := by
  have known : kMessageLength (byteAt msg 0) ≠ 0 := formed.2 ▸ formed.1
  obtain ⟨M, member, type, -⟩ := MessageType.kMessageLength_eq _ known
  have listed : ∀ M ∈ MessageType.all, M.kType ∈ reportTypes := by decide
  exact List.mem_map.mpr ⟨M.kType, listed M member, type⟩

theorem sum_listed (f : Char → Nat) (types : List Char) :
    ((types.filterMap fun t => if f t ≠ 0 then some (t, f t) else none).map Prod.snd).sum = (types.map f).sum := by
  induction types with
  | nil => rfl
  | cons t types ih =>
    rw [List.filterMap_cons, List.map_cons, List.sum_cons]
    by_cases none : f t = 0
    · rw [if_neg (not_not.mpr none), none, Nat.zero_add]
      exact ih
    · rw [if_pos none]
      exact congrArg _ ih

theorem reportTypes_nodup : (reportTypes.map ascii).Nodup := by decide

/-- Every well-formed message is counted under one of the types. -/
theorem sum_types (msgs : List (List UInt8)) :
    (reportTypes.map fun t => (msgs.filter fun msg => Parser.WellFormed msg ∧ byteAt msg 0 = ascii t).length).sum =
      (msgs.filter Parser.WellFormed).length := by
  have length : ∀ l : List (List UInt8), (l.map fun _ => 1).sum = l.length := by
    intro l
    rw [List.map_const', List.sum_replicate_nat, Nat.mul_one]
  have group : ∀ t, (msgs.filter fun msg => Parser.WellFormed msg ∧ byteAt msg 0 = ascii t).length =
      (((msgs.filter Parser.WellFormed).filter fun msg => byteAt msg 0 = ascii t).map fun _ => 1).sum := by
    intro t
    rw [length, List.filter_filter]
    refine congrArg List.length (List.filter_congr fun msg _ => ?_)
    rw [Bool.decide_and, Bool.and_comm]
  have groups := @KeyedSplit.sum_groups _ _ _ (fun msg => byteAt msg 0) (fun _ => 1) _ reportTypes_nodup
    (msgs.filter Parser.WellFormed) fun msg member => type_reported (of_decide_eq_true (List.mem_filter.mp member).2)
  rw [length, List.map_map] at groups
  simp only [group]
  exact groups

/-! Whole sessions. -/

section Session

variable {expectedOrders : Nat} {msgs : List (List UInt8)}

/-- The parser of `main` after these messages. -/
def after (o : ByteOrder) (accepts : List BookEvent → Bool) (B : Build) (expectedOrders : Nat) (msgs : List (List UInt8)) :
    MainParser B :=
  msgs.foldl (parse o accepts) (create B expectedOrders)

theorem after_shows (takes : Runs.Every NaiveEngine.parse NaiveEngine.Takes {} msgs) :
    (after o accepts B expectedOrders msgs).feed.Shows (msgs.foldl NaiveEngine.parse {}) := by
  rw [after, run_feed]
  exact (FeedParser.create_shows B expectedOrders 0).run takes

theorem after_settled (msgs : List (List UInt8)) : (after o accepts B expectedOrders msgs).handler.sink.pub.Settled := by
  refine Runs.invariant (fun p : MainParser B => p.handler.sink.pub.Settled) (fun p msg settled => ?_) msgs ?_
  · exact p.parse_settled settled msg
  · exact fun locate => ⟨rfl, fun r => rfl, rfl⟩

theorem after_dir (msgs : List (List UInt8)) :
    (after o accepts B expectedOrders msgs).handler.sink.dir = directory o (listings msgs) :=
  run_dir _ msgs

theorem after_count (msgs : List (List UInt8)) (c : Counter) :
    (after o accepts B expectedOrders msgs).stats.count c = (msgs.map counter).count c := by
  have count := Parser.foldl_count (H := BookBuilder.handler (ListedPublisher.sink o accepts)) msgs (create B expectedOrders) c
  have start : (create B expectedOrders).stats.count c = 0 := by
    cases c <;> rfl
  rw [start, Nat.zero_add] at count
  exact count

theorem after_byType (msgs : List (List UInt8)) (type : UInt8) : (after o accepts B expectedOrders msgs).stats.byType type =
    (msgs.filter fun msg => Parser.WellFormed msg ∧ byteAt msg 0 = type).length := by
  rw [after, run_byType]
  exact Nat.zero_add _

theorem after_messages (msgs : List (List UInt8)) :
    (after o accepts B expectedOrders msgs).stats.messages = (msgs.filter Parser.WellFormed).length := by
  have count := @after_count B o accepts expectedOrders msgs .messages
  rw [List.count_eq_countP, List.countP_map, List.countP_eq_length_filter] at count
  refine count.trans (congrArg List.length (List.filter_congr fun msg _ => ?_))
  rw [Function.comp_apply, beq_eq_decide, decide_eq_decide]
  exact Parser.counter_messages

theorem after_report (takes : Runs.Every NaiveEngine.parse NaiveEngine.Takes {} msgs) (consumed : Nat) :
    ((after o accepts B expectedOrders msgs).printReport consumed).Right msgs := by
  have tracks := (@after_shows B o accepts expectedOrders _ takes).tracks
  obtain ⟨unknown, overs⟩ := NaiveEngine.foldl_counts {} msgs
  have stats : (after o accepts B expectedOrders msgs).handler.engine.stats = _ := tracks.stats
  refine ⟨after_messages msgs, fun t k => ?_, ?_, after_count msgs .unknownType, after_count msgs .badLength,
    after_count msgs .empty, ?_, ?_, ?_, ?_⟩
  · simp only [printReport, List.mem_filterMap, after_byType]
    constructor
    · rintro ⟨t', listed, same⟩
      split at same
      · rename_i some
        obtain ⟨rfl, rfl⟩ := Prod.mk.inj (Option.some.inj same)
        exact ⟨listed, some, rfl⟩
      · cases same
    · rintro ⟨listed, some, rfl⟩
      exact ⟨t, listed, if_pos some⟩
  · rw [printReport]
    dsimp only
    rw [sum_listed, after_messages]
    simp only [after_byType]
    exact sum_types msgs
  · show (after o accepts B expectedOrders msgs).handler.engine.stats.unknownRef = _
    rw [stats, unknown]
    exact Nat.zero_add _
  · show (after o accepts B expectedOrders msgs).handler.engine.stats.missingLevel = _
    rw [stats]
  · show (after o accepts B expectedOrders msgs).handler.engine.stats.overfill = _
    rw [stats, overs]
    exact Nat.zero_add _
  · show (after o accepts B expectedOrders msgs).handler.engine.orders.size = _
    rw [OrderMap.size_eq]
    exact tracks.orders.length_eq

theorem after_line (takes : Runs.Every NaiveEngine.parse NaiveEngine.Takes {} msgs) (sym : List UInt8) :
    SymbolLine.Right msgs sym ((after o accepts B expectedOrders msgs).printSymbol o sym) := by
  have shows := @after_shows B o accepts expectedOrders _ takes
  have found : (after o accepts B expectedOrders msgs).handler.sink.dir.locate o sym =
      if 8 < sym.length then none else lastLocate (listings msgs) (padded sym) := by
    rw [after_dir, SymbolDirectory.locate, ← locateOf_directory o]
    rfl
  rw [SymbolLine.Right, printSymbol, found]
  cases (if 8 < sym.length then none else lastLocate (listings msgs) (padded sym) : Option UInt16) with
  | none => rfl
  | some locate =>
    have quotes := shows.quotes locate
    rw [← shows.current.current locate] at quotes
    refine ⟨_, quotes, ?_⟩
    dsimp only
    rw [(after_settled msgs locate).load]
    rfl

end Session

/-- The report after a replay is right in its counts of messages and calls, and whatever symbol
is asked for, its line quotes the live orders under the last locate that the symbol was given. -/
theorem session_reported (o : ByteOrder) (B : Build) (expectedOrders : TableSize B.group) (accepts : List BookEvent → Bool)
    (cfg : ReplayConfig) {buf : List UInt8} (takes : Runs.Every NaiveEngine.parse NaiveEngine.Takes {} (messages buf)) :
    ∃ r stop, runReplay (BookBuilder.handler (ListedPublisher.sink o accepts)) (fun _ => true) buf kSlice cfg
        { parser := create B expectedOrders } = some (r, stop) ∧
      (∀ consumed, (printReport r.parser consumed).Right (messages buf)) ∧
      ∀ sym, SymbolLine.Right (messages buf) sym (printSymbol o r.parser sym) := by
  obtain ⟨r, stop, replayed, parser⟩ := runReplay_parses (ListedPublisher.sink o accepts) cfg buf (create B expectedOrders)
  have parser : r.parser = after o accepts B expectedOrders (messages buf) := parser
  refine ⟨r, stop, replayed, ?_, ?_⟩ <;> rw [parser]
  · exact after_report takes
  · exact after_line takes

/-- The directory message that gives `AAPL` locate 0. -/
def listAapl : List UInt8 :=
  [82] ++ List.replicate 10 0 ++ [65, 65, 80, 76, 32, 32, 32, 32] ++ List.replicate 20 0

/-- A listing and two bids: the higher one is shown under the symbol. -/
theorem session_reported_sample : ∃ r stop,
    runReplay (BookBuilder.handler (ListedPublisher.sink .little fun _ => true)) (fun _ => true)
      ((listAapl :: FeedParser.bidMessages 100 2).flatMap framed) kSlice { prefetch := 8 } { parser := create ⟨.avx2, 4⟩ 16 } = some (r, stop) ∧
    (printReport r.parser 2).messages = 3 ∧ (printReport r.parser 2).unknownRef = 0 ∧
    (∃ bidQty askQty askPrice, printSymbol .little r.parser [65, 65, 80, 76] = some (.quote 0 bidQty 101 askQty askPrice)) ∧
    printSymbol .little r.parser [66] = some .notInDirectory := by
  have written : messages ((listAapl :: FeedParser.bidMessages 100 2).flatMap framed) = listAapl :: FeedParser.bidMessages 100 2 :=
    messages_written rfl (by decide +kernel)
  obtain ⟨r, stop, replayed, report, line⟩ := @session_reported .little ⟨.avx2, 4⟩ ⟨16, by decide, by decide⟩
    (fun _ => true) { prefetch := 8 } ((listAapl :: FeedParser.bidMessages 100 2).flatMap framed) (by rw [written]; decide +kernel)
  rw [written] at report line
  refine ⟨r, stop, replayed, (report 2).messages.trans (by decide +kernel), (report 2).unknownRef.trans (by decide +kernel),
    ?_, ?_⟩
  · have shown := line [65, 65, 80, 76]
    have listed : (if 8 < ([65, 65, 80, 76] : List UInt8).length then none
        else lastLocate (listings (listAapl :: FeedParser.bidMessages 100 2)) (padded [65, 65, 80, 76])) = some 0 := by decide +kernel
    rw [SymbolLine.Right, listed] at shown
    obtain ⟨t, quotes, shown⟩ := shown
    have bid := quotes.bid
    have sides : onSide (NaiveEngine.liveAfter (listAapl :: FeedParser.bidMessages 100 2)) 0 true =
        [⟨1, 101, 1, 0, ascii 'B'⟩, ⟨0, 100, 1, 0, ascii 'B'⟩] := by decide +kernel
    rw [sides] at bid
    rw [bid.first (by decide)] at shown
    exact ⟨_, _, _, shown⟩
  · have shown := line [66]
    have absent : (if 8 < ([66] : List UInt8).length then none
        else lastLocate (listings (listAapl :: FeedParser.bidMessages 100 2)) (padded [66])) = none := by decide +kernel
    rw [SymbolLine.Right, absent] at shown
    exact shown

end MainParser

end Itch
