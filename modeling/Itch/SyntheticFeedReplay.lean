import Itch.StraySessions
import Itch.SyntheticFeedRuns

namespace Itch

namespace FeedSession

variable {B : Build}

/-- A stream whose session is consistent and ends empty is replayed without an error exactly
if the counts of the levels bear it. -/
theorem replayed_iff {stream : List UInt8} {msgs : List (List UInt8)} (written : stream = msgs.flatMap framed)
    (formed : ∀ msg ∈ msgs, Parser.WellFormed msg) (short : ∀ msg ∈ msgs, msg.length < 2 ^ 16)
    (consistent : Runs.Every on Consistent {} (msgs.map Message.decode))
    (ticked : Runs.Every on (fun _ m => Ticked m) {} (msgs.map Message.decode))
    (drained : ((msgs.map Message.decode).foldl on {}).engine.live.entries = []) {p : Parser (BookBuilder B Unit)}
    (idle : p.handler.engine.Idle) :
    Replayed p stream msgs.length ↔ Runs.Every on Counts {} (msgs.map Message.decode) := by
  constructor
  · intro replay
    by_contra uncounted
    have missed := missed_run consistent ticked uncounted drained idle
    have kept := replay.keeps msgs.length
    rw [messages_written written short, List.take_length] at kept
    have handler := (Parser.parse_foldl (H := BookBuilder.handler (nullSink B)) rfl formed p).1
    rw [handler] at kept
    exact missed (congrArg EngineStats.missingLevel kept)
  · intro counts
    exact replayed consistent ticked counts written formed short rfl drained idle

end FeedSession

namespace SyntheticFeed

/-- Whatever is drawn, the stream of a feed is a session in which all new orders have new
references and all others take from live orders. Its replay from an idle engine goes without
an error, and leaves the engine idle for the next, exactly if no message leaves a multiple
of 2 ^ 32 orders, but not none, at the price it takes from. -/
theorem build_replays {ρ : Type} (R : Rng ρ) {cfg : SyntheticFeedConfig} (some : cfg.symbols ≠ 0) (rng : ρ)
    {f : SyntheticFeed ρ} (built : build R cfg { rng } = .some ((), f)) :
    Runs.Every FeedSession.on FeedSession.Consistent {} ((Itch.messages f.out).map Message.decode) ∧
    ∀ (B : Build) (p : Parser (BookBuilder B Unit)), p.handler.engine.Idle → (FeedSession.Replayed p f.out f.messages ↔
      Runs.Every FeedSession.on FeedSession.Counts {} ((Itch.messages f.out).map Message.decode)) := by
  obtain ⟨sent, records, drained⟩ := (build_ends R some rng).of_run built
  have all := messages_written records.out records.short
  rw [all, records.messages]
  exact ⟨records.consistent, fun B p idle =>
    FeedSession.replayed_iff records.out records.formed records.short records.consistent records.ticked drained idle⟩

/-- The draws that are all low, and heads. -/
def lowDraws : Rng Unit where
  bits _ := (0, ())
  uniformInt low _ le _ := (⟨low, Nat.le_refl low, le⟩, ())
  uniformReal _ := (0, ())
  geometric _ := (0, ())
  bernoulli _ _ := (true, ())

/-- Two orders of one symbol are added and drained. -/
theorem build_replays_sample : ∃ f, build lowDraws { symbols := 1, events := 1, initialOrders := 1, cdf := [1] }
      { rng := () } = some ((), f) ∧
    ∀ (B : Build) (p : Parser (BookBuilder B Unit)), p.handler.engine.Idle → FeedSession.Replayed p f.out f.messages := by
  have fits : (build lowDraws { symbols := 1, events := 1, initialOrders := 1, cdf := [1] } { rng := () }).isSome = true := by
    decide +kernel
  obtain ⟨⟨⟨⟩, f⟩, built⟩ := Option.isSome_iff_exists.mp fits
  have out : f.out = ((build lowDraws { symbols := 1, events := 1, initialOrders := 1, cdf := [1] } { rng := () }).getD
      ((), { rng := () })).2.out := by
    rw [built]
    rfl
  have counts : Runs.Every FeedSession.on FeedSession.Counts {} ((Itch.messages f.out).map Message.decode) := by
    rw [out]
    decide +kernel
  exact ⟨f, built, fun B p idle => ((build_replays lowDraws (by decide) () built).2 B p idle).mpr counts⟩

end SyntheticFeed

end Itch
