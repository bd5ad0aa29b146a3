import Itch.ReadsInside

namespace Itch

open Traced

variable {σ τ : Type} {buf : List UInt8} {r : Record}

/-- The record is one of the buffer, framed and complete. -/
def Record.Complete (r : Record) (buf : List UInt8) : Prop :=
  2 ≤ r.start ∧ (loadBe16 buf (r.start - 2)).toNat = r.len ∧ r.start + r.len ≤ buf.length

def Read.index : Read → Nat
  | .framing i => i
  | .content _ i => i

/-- The record that a byte is read for, if it is not one of a length field. -/
def Read.record : Read → Option Record
  | .framing _ => none
  | .content r _ => some r

/-- A read inside the buffer and, if it is made for a record, inside this one complete record. -/
def Read.Inside (buf : List UInt8) (e : Read) : Prop :=
  e.index < buf.length ∧ ∀ r, e.record = some r → r.Complete buf ∧ r.start ≤ e.index ∧ e.index < r.start + r.len

theorem Record.Complete.inside (complete : r.Complete buf) {e : Read} (own : r.Own e) : e.Inside buf := by
  cases e with
  | framing i => exact own.elim
  | content r' i =>
    obtain ⟨rfl, after, before⟩ := own
    have whole := complete.2.2
    refine ⟨before.trans_le whole, ?_⟩
    rintro r ⟨⟩
    exact ⟨complete, after, before⟩

theorem within_record {α : Type} {x : Reading α} (own : Within r.Own buf x) (complete : r.Complete buf) :
    Within (Read.Inside buf) buf x :=
  own.mono fun _ => complete.inside

theorem inside_length {off : Nat} (field : off + 2 ≤ buf.length) : Within (Read.Inside buf) buf (readLength off) :=
  within_readAt fun k after before => ⟨by rw [Read.index]; omega, fun _ none => by cases none⟩

theorem complete_at {off : Nat} (fits : ¬ buf.length < off + 2 + (loadBe16 buf off).toNat) :
    Record.Complete ⟨off + 2, (loadBe16 buf off).toNat⟩ buf :=
  ⟨Nat.le_add_left 2 off, rfl, Nat.le_of_not_lt fits⟩

/-- The loop reads length fields inside the buffer and otherwise what its body reads. -/
theorem inside_stream {parse : σ → Record → Reading σ}
    (body : ∀ s r, r.Complete buf → Within (Read.Inside buf) buf (parse s r)) (fuel off : Nat) (s : σ) :
    Within (Read.Inside buf) buf (streamReads parse buf.length fuel off s) := by
  induction fuel generalizing off s with
  | zero => exact within_pure _
  | succ fuel ih =>
    refine within_ite (fun field => within_bind (inside_length field) ?_) fun _ => within_pure _
    refine within_ite (fun _ => within_pure _) fun fits => ?_
    exact within_bind (body s _ (complete_at fits)) (ih _ _)

namespace Parser

theorem inside_parseStream (L : Listener σ) (p : Parser σ) :
    Within (Read.Inside buf) buf (p.parseStreamReads L buf.length) :=
  inside_stream (fun p r complete => within_record (own_parse L p r) complete) _ _ p

section Prefetch

variable {prefetch : σ → Record → Reading (List Hint)}
  (hints : ∀ s r, r.Complete buf → Within (Read.Inside buf) buf (prefetch s r))
include hints

theorem inside_prefetchNext (s : Parser σ × Nat) : Within (Read.Inside buf) buf (prefetchNextReads prefetch buf.length s) := by
  obtain ⟨p, ahead⟩ := s
  refine within_ite (fun _ => within_pure _) fun field => within_bind (inside_length (by omega)) ?_
  refine within_ite (fun _ => within_pure _) fun fits => ?_
  exact within_bind (hints p.handler _ (complete_at fits)) (within_pure _)

theorem inside_prefetchAhead (distance : Nat) (s : Parser σ × Nat) :
    Within (Read.Inside buf) buf (prefetchAhead prefetch buf.length distance s) := by
  induction distance generalizing s with
  | zero => exact within_pure s
  | succ distance ih => exact within_bind (inside_prefetchNext hints s) (ih _)

theorem inside_parseStreamPrefetch {L : Listener σ} (has : L.prefetch = some prefetch) (distance : Nat) (p : Parser σ) :
    Within (Read.Inside buf) buf (p.parseStreamPrefetchReads L distance buf.length) := by
  unfold parseStreamPrefetchReads
  rw [has]
  refine within_ite (fun _ => inside_parseStream L p) fun _ => ?_
  refine within_bind (inside_prefetchAhead hints distance _)
    (within_bind (inside_stream (fun s r complete => ?_) _ _ _) (within_pure _))
  exact within_bind (within_record (own_parse L s.1 r) complete) (inside_prefetchNext hints _)

end Prefetch

end Parser

theorem inside_forEachFrame (f : τ → FrameProgram τ) (fuel off : Nat) (scan : FrameScan) (t : τ) :
    Within (Read.Inside buf) buf (forEachFrameReadsFrom f buf.length fuel off scan t) := by
  induction fuel generalizing off scan t with
  | zero => exact within_pure _
  | succ fuel ih =>
    refine within_ite (fun field => within_bind (inside_length field) ?_) fun _ => within_pure _
    refine within_ite (fun _ => within_pure _) fun fits => within_ite (fun _ => ih _ _ _) fun some => ?_
    have complete := complete_at fits
    refine within_bind (within_record (Record.own_readAt (Nat.pos_of_ne_zero some)) complete) ?_
    refine within_ite (fun _ => ih _ _ _) fun known => ?_
    have header := header_le (not_not.mp known) some
    exact within_bind (within_record ((f t).own_run header buf) complete) (ih _ _ _)

/-- The listener with the hints of the book builder, whose sink has the filter `wants`. -/
def Listener.withHints (L : Listener σ) (wants : Option (σ → UInt8 → UInt16 → Bool)) : Listener σ :=
  { L with prefetch := some fun s r => BookBuilder.prefetchReads (wants.map fun wants => wants s) r }

/-- Whatever the bytes and the handler, no read leaves the buffer or the one complete
record it is made for. -/
theorem reads_inside (buf : List UInt8) :
    (∀ (σ : Type) (L : Listener σ) (p : Parser σ), Within (Read.Inside buf) buf (p.parseStreamReads L buf.length)) ∧
    (∀ (σ : Type) (L : Listener σ) (wants : Option (σ → UInt8 → UInt16 → Bool)) (distance : Nat) (p : Parser σ),
      Within (Read.Inside buf) buf (p.parseStreamPrefetchReads (L.withHints wants) distance buf.length)) ∧
    (∀ (τ : Type) (f : τ → FrameProgram τ) (t : τ), Within (Read.Inside buf) buf (forEachFrameReads f t buf.length)) := by
  refine ⟨fun σ L p => Parser.inside_parseStream L p, fun σ L wants distance p => ?_, fun τ f t => inside_forEachFrame f _ _ _ t⟩
  refine Parser.inside_parseStreamPrefetch (fun s r complete => ?_) rfl distance p
  exact within_record (BookBuilder.own_prefetch _ r) complete

end Itch
