import Itch.EngineCalls
import Itch.Parser

namespace Itch

/-- The call that a message makes. -/
def BookMessage.call : BookMessage → EngineCall
  | .addOrder m => .add m.locate m.ref m.side m.shares m.price
  | .addOrderMpid m => .add m.locate m.ref m.side m.shares m.price
  | .orderExecuted m => .reduce m.ref m.executedShares
  | .orderExecutedWithPrice m => .reduce m.ref m.executedShares
  | .orderCancel m => .reduce m.ref m.cancelledShares
  | .orderDelete m => .remove m.ref
  | .orderReplace m => .replace m.originalRef m.newRef m.shares m.price

/-- What a book builder forwards to. Where a sink declares no `on_book` or `on` for
a message, these leave it alone. -/
structure Sink (B : Build) (τ : Type) where
  onBook : BookEngine B → τ → BookMessage → BookUpdate → τ := fun _ sink _ _ => sink
  on : τ → Message → τ := fun sink _ => sink
  wants : Option (τ → UInt8 → UInt16 → Bool) := none

/-- `NullSink`: a builder with it only maintains the books. -/
def nullSink (B : Build) : Sink B Unit := {}

structure BookBuilder (B : Build) (τ : Type) where
  engine : BookEngine B
  sink : τ

namespace BookBuilder

variable {B : Build} {τ : Type} (S : Sink B τ)

/-- Takes over the engine after `m` and tells the sink. -/
def notify (b : BookBuilder B τ) (m : BookMessage) (r : BookEngine B × BookUpdate) : BookBuilder B τ where
  engine := r.1
  sink := S.onBook r.1 b.sink m r.2

def onBookMessage (b : BookBuilder B τ) (m : BookMessage) : BookBuilder B τ :=
  match m with
  | .addOrder a => b.notify S m (b.engine.add a.locate a.ref a.side a.shares a.price)
  | .addOrderMpid a => b.notify S m (b.engine.add a.locate a.ref a.side a.shares a.price)
  | .orderExecuted x => b.notify S m (b.engine.reduce x.ref x.executedShares)
  | .orderExecutedWithPrice x => b.notify S m (b.engine.reduce x.ref x.executedShares)
  | .orderCancel x => b.notify S m (b.engine.reduce x.ref x.cancelledShares)
  | .orderDelete d => b.notify S m (b.engine.remove d.ref)
  | .orderReplace r => b.notify S m (b.engine.replace r.originalRef r.newRef r.shares r.price)

def on (b : BookBuilder B τ) : Message → BookBuilder B τ
  | .book m => b.onBookMessage S m
  | .stockDirectory m => { engine := b.engine.prepare m.locate, sink := S.on b.sink (.stockDirectory m) }
  | m => { b with sink := S.on b.sink m }

/-- The builder as a parser's handler. Its prefetches only warm caches. -/
def handler : Handler (BookBuilder B τ) where
  on := on S
  wants := S.wants.map fun wants b type locate => wants b.sink type locate
  prefetch := some fun b _ => b

theorem onBookMessage_eq (b : BookBuilder B τ) (m : BookMessage) :
    b.onBookMessage S m = b.notify S m (b.engine.call m.call) := by
  cases m <;> rfl

end BookBuilder

end Itch
