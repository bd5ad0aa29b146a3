import Itch.BookBuilder

namespace Itch

namespace Parser

variable {σ : Type} {H : Handler σ}

/-- Prefetches that leave their handler alone. -/
def PureHints (H : Handler σ) : Prop := ∀ prefetch, H.prefetch = some prefetch → ∀ s record, prefetch s record = s

theorem prefetchNext_fst {prefetch : σ → List UInt8 → σ} (pure : ∀ s record, prefetch s record = s) (buf : List UInt8)
    (s : Parser σ × Nat) : (prefetchNext prefetch buf s).1 = s.1 := by
  obtain ⟨p, ahead⟩ := s
  unfold prefetchNext
  dsimp only
  rw [pure]
  split
  · rfl
  · split <;> rfl

/-- The lookahead changes nothing, at any distance. -/
theorem parseStreamPrefetch_eq (pure : PureHints H) (distance : Nat) (p : Parser σ) (buf : List UInt8) :
    p.parseStreamPrefetch H distance buf = p.parseStream H buf := by
  unfold parseStreamPrefetch
  cases hints : H.prefetch with
  | none => rfl
  | some prefetch =>
    have quiet := prefetchNext_fst (pure prefetch hints) buf
    dsimp only
    split
    · rfl
    · exact parseStream_lookahead quiet (parse H) distance buf (p, 0)

end Parser

theorem BookBuilder.handler_pure {B : Build} {τ : Type} (S : Sink B τ) : Parser.PureHints (BookBuilder.handler S) := by
  intro prefetch hints s record
  obtain rfl := Option.some.inj hints
  rfl

end Itch
