import Itch.FeedSession
import Itch.Parser

namespace Itch

namespace BookEngine

variable {B : Build}

/-- An engine without live orders, all its books empty, that has counted no error. -/
structure Idle (e : BookEngine B) : Prop where
  orders : e.orders.orders = []
  wf : ∀ locate bid, (e.sides locate bid).WF
  empty : ∀ locate bid, (e.sides locate bid).size = 0
  stats : e.stats = {}

variable {e : BookEngine B} {n : NaiveEngine}

theorem Idle.tracks (idle : e.Idle) : e.Tracks {} where
  orders := List.Perm.of_eq idle.orders
  sides :=
    { wf := idle.wf
      levels := by
        intro locate bid key
        rw [LevelSide.lookup, LevelSide.levels, idle.empty]
        rfl }
  stats := idle.stats

theorem Tracks.idle (tracks : e.Tracks n) (none : n.live.entries = []) (unknownRef : n.unknownRef = 0)
    (overfill : n.overfill = 0) : e.Idle where
  orders := (none ▸ tracks.orders).eq_nil
  wf := tracks.sides.wf
  empty locate bid := by
    rw [tracks.sides.size_eq, none]
    rfl
  stats := by
    rw [tracks.stats, unknownRef, overfill]

end BookEngine

namespace Parser

variable {σ : Type} {H : Handler σ}

/-- Well-formed messages all reach a handler that wants them all, and only count as messages. -/
theorem parse_foldl (all : H.wants = none) {msgs : List (List UInt8)} (formed : ∀ msg ∈ msgs, WellFormed msg)
    (p : Parser σ) : (msgs.foldl (parse H) p).handler = (msgs.map Message.decode).foldl H.on p.handler ∧
      (msgs.foldl (parse H) p).stats.messages = p.stats.messages + msgs.length ∧
      (msgs.foldl (parse H) p).stats.unknownType = p.stats.unknownType ∧
      (msgs.foldl (parse H) p).stats.badLength = p.stats.badLength ∧
      (msgs.foldl (parse H) p).stats.empty = p.stats.empty ∧
      (msgs.foldl (parse H) p).stats.filtered = p.stats.filtered := by
  induction msgs generalizing p with
  | nil => exact ⟨rfl, rfl, rfl, rfl, rfl, rfl⟩
  | cons msg msgs ih =>
    obtain ⟨first, rest⟩ := List.forall_mem_cons.mp formed
    have step := @parse_all _ _ p _ first all
    have counted := tally_formed first p.stats
    obtain ⟨handler, messages, others⟩ := ih rest (p.parse H msg)
    rw [step, counted] at handler messages others
    rw [List.foldl_cons, step, counted]
    refine ⟨handler, messages.trans ?_, others⟩
    rw [List.length_cons]
    change p.stats.messages + 1 + msgs.length = _
    omega

end Parser

/-! A stream that was written as records. -/

section Written

variable {stream : List UInt8} {msgs : List (List UInt8)} (written : stream = msgs.flatMap framed)
  (short : ∀ msg ∈ msgs, msg.length < 2 ^ 16)
include written short

theorem records_written : Records stream 0 msgs stream.length := by
  have inside := @Records.of_bytes stream 0 msgs [] (by rw [List.drop_zero, List.append_nil, written]) short
  rwa [Nat.zero_add, ← written] at inside

theorem messages_written : messages stream = msgs := by
  have cut : CutAt stream stream.length := by
    rw [CutAt]
    omega
  exact ((records_written written short).unique cut (records_messages stream) (cutAt_consumed stream)).1

/-- Records that a written stream starts with are its first ones. -/
theorem written_front {front : List (List UInt8)} (starts : front.flatMap framed <+: stream)
    (small : ∀ msg ∈ front, msg.length < 2 ^ 16) : front <+: msgs := by
  have cut : CutAt stream stream.length := by
    rw [CutAt]
    omega
  obtain ⟨rest, whole⟩ := starts
  have others := @Records.of_bytes stream 0 front rest (by rw [List.drop_zero, whole]) small
  exact ((records_written written short).longest cut others).2

end Written

namespace FeedSession

variable {B : Build}

/-- The replay of a stream of `count` messages: all of them are parsed as such and nothing
else, the engine never counts an error, and it ends as empty as it was. -/
structure Replayed (p : Parser (BookBuilder B Unit)) (stream : List UInt8) (count : Nat) : Prop where
  consumed : (p.parseStream (BookBuilder.handler (nullSink B)) stream).2 = stream.length
  messages : (p.parseStream (BookBuilder.handler (nullSink B)) stream).1.stats.messages = p.stats.messages + count
  unknownType : (p.parseStream (BookBuilder.handler (nullSink B)) stream).1.stats.unknownType = p.stats.unknownType
  badLength : (p.parseStream (BookBuilder.handler (nullSink B)) stream).1.stats.badLength = p.stats.badLength
  emptyMessages : (p.parseStream (BookBuilder.handler (nullSink B)) stream).1.stats.empty = p.stats.empty
  keeps : ∀ k, (((Itch.messages stream).take k).foldl (Parser.parse (BookBuilder.handler (nullSink B)))
    p).handler.engine.stats = {}
  idle : (p.parseStream (BookBuilder.handler (nullSink B)) stream).1.handler.engine.Idle

/-- Whether the counts of the levels tell what a message leaves at a price from none. -/
def Counts (s : FeedSession) (m : Message) : Prop := s.engine.CountsOn m

instance (s : FeedSession) (m : Message) : Decidable (s.Counts m) := inferInstanceAs (Decidable (s.engine.CountsOn m))

section Replay

variable {ms : List Message} (consistent : Runs.Every on Consistent {} ms) (ticked : Runs.Every on (fun _ m => Ticked m) {} ms)
  (counts : Runs.Every on Counts {} ms)
include consistent ticked

theorem sound_run : (ms.foldl on {}).Sound := by
  refine @Runs.Every.invariant _ _ _ _ Sound ?_ _ _ empty_sound (consistent.and ticked)
  intro s m sound both
  exact sound.on both.1 both.2

include counts

/-- An idle engine stays in step with the session. -/
theorem tracks_run {b : BookBuilder B Unit} (idle : b.engine.Idle) :
    (ms.foldl (BookBuilder.on (nullSink B)) b).engine.Tracks (ms.foldl on {}).engine := by
  have related := @Runs.Every.simulates _ _ _ on (BookBuilder.on (nullSink B)) _
    (fun s b => b.engine.Tracks s.engine ∧ s.Sound) ?_ {} b ms ⟨idle.tracks, empty_sound⟩ (consistent.and (ticked.and counts))
  · exact related.1
  · intro s b m holds ok
    obtain ⟨tracks, sound⟩ := holds
    obtain ⟨consistent, ticked, counts⟩ := ok
    have after := sound.on consistent ticked
    have levels := fitLevels_of_ticked after.ticked
    rw [on_engine] at levels ⊢
    exact ⟨tracks.on_counted (nullSink B) counts (sound.fresh consistent) levels, after⟩

theorem replayed {stream : List UInt8} {msgs : List (List UInt8)} (written : stream = msgs.flatMap framed)
    (formed : ∀ msg ∈ msgs, Parser.WellFormed msg) (short : ∀ msg ∈ msgs, msg.length < 2 ^ 16)
    (decoded : msgs.map Message.decode = ms) (drained : (ms.foldl on {}).engine.live.entries = [])
    {p : Parser (BookBuilder B Unit)} (idle : p.handler.engine.Idle) : Replayed p stream msgs.length := by
  have records := records_written written short
  have whole := messages_written written short
  have cut : CutAt stream stream.length := by
    rw [CutAt]
    omega
  have parsed : p.parseStream (BookBuilder.handler (nullSink B)) stream = _ := parseStream_records records cut p
  obtain ⟨handler, messages, unknownType, badLength, empty, -⟩ :=
    Parser.parse_foldl (H := BookBuilder.handler (nullSink B)) rfl formed p
  have sound := sound_run consistent ticked
  refine ⟨?_, ?_, ?_, ?_, ?_, ?_, ?_⟩
  · rw [parsed]
  · rw [parsed]
    exact messages
  · rw [parsed]
    exact unknownType
  · rw [parsed]
    exact badLength
  · rw [parsed]
    exact empty
  · intro k
    rw [whole]
    have front := (@Parser.parse_foldl _ (BookBuilder.handler (nullSink B)) rfl (msgs.take k)
      (fun msg member => formed msg (List.mem_of_mem_take member)) p).1
    have tracks := tracks_run (consistent.take k) (ticked.take k) (counts.take k) idle
    have errors := sound_run (consistent.take k) (ticked.take k)
    rw [front, List.map_take, decoded]
    exact tracks.stats.trans (by rw [errors.unknownRef, errors.overfill])
  · rw [parsed]
    dsimp only
    rw [handler, decoded]
    exact (tracks_run consistent ticked counts idle).idle drained sound.unknownRef sound.overfill

end Replay

end FeedSession

end Itch
