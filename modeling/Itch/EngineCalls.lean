import Itch.OrderBook

namespace Itch

/-- A call on the engine. -/
inductive EngineCall where
  | add (locate : UInt16) (ref : UInt64) (side : UInt8) (shares price : UInt32)
  | reduce (ref : UInt64) (shares : UInt32)
  | remove (ref : UInt64)
  | replace (oldRef newRef : UInt64) (shares price : UInt32)

namespace BookEngine

variable {B : Build}

def call (e : BookEngine B) : EngineCall → BookEngine B × BookUpdate
  | .add locate ref side shares price => e.add locate ref side shares price
  | .reduce ref shares => e.reduce ref shares
  | .remove ref => e.remove ref
  | .replace oldRef newRef shares price => e.replace oldRef newRef shares price

def run (e : BookEngine B) (calls : List EngineCall) : BookEngine B := calls.foldl (fun e c => (e.call c).1) e

end BookEngine

end Itch
