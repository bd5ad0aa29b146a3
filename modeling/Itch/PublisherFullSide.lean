import Itch.FullSide
import Itch.PublisherTop

namespace Itch

variable {B : Build}

/-- The call that an encoded add makes. -/
theorem MsgAddOrder.call_encode {m : MsgAddOrder} (stock : m.stock.length = 8) :
    ∃ a, Message.decode m.encode = .book (.addOrder a) ∧
      (BookMessage.addOrder a).call = .add m.locate m.ref m.side m.shares m.price := by
  obtain ⟨locate, ref, side, shares, price⟩ := MsgAddOrder.decode_encode stock
  refine ⟨.decode m.encode, Message.decode_add _, ?_⟩
  rw [BookMessage.call, locate, ref, side, shares, price]

namespace FeedParser

/-- A bid of one share. -/
def bidMessage (ref price : Nat) : MsgAddOrder where
  ref := UInt64.ofNat ref
  side := ascii 'B'
  shares := 1
  stock := List.replicate 8 (ascii ' ')
  price := UInt32.ofNat price

/-- Bids at `n` ascending prices. -/
def bidMessages (first n : Nat) : List (List UInt8) := (List.range n).map fun i => (bidMessage i (first + i)).encode

theorem bidMessages_zero (first : Nat) : bidMessages first 0 = [] := rfl

theorem bidMessages_succ (first n : Nat) :
    bidMessages first (n + 1) = bidMessages first n ++ [(bidMessage n (first + n)).encode] := by
  rw [bidMessages, List.range_succ, List.map_append]
  rfl

theorem bidMessages_short (first n : Nat) : ∀ msg ∈ bidMessages first n, msg.length < 2 ^ 16 := by
  intro msg member
  obtain ⟨i, -, rfl⟩ := List.mem_map.mp member
  have length := @MsgAddOrder.encode_length (bidMessage i (first + i)) rfl
  omega

variable (ref price : Nat)

theorem bidMessage_decode : ∃ a, Message.decode (bidMessage ref price).encode = .book (.addOrder a) ∧
    (BookMessage.addOrder a).call = .add 0 (UInt64.ofNat ref) (ascii 'B') 1 (UInt32.ofNat price) :=
  MsgAddOrder.call_encode rfl

variable {accepts : List BookEvent → Bool}

/-- The step of a bid. -/
theorem parse_bid (p : FeedParser B) : ∃ a, (BookMessage.addOrder a).call =
      .add 0 (UInt64.ofNat ref) (ascii 'B') 1 (UInt32.ofNat price) ∧
    (p.parse accepts (bidMessage ref price).encode).handler = p.handler.notify (Publisher.sink accepts) (.addOrder a)
      (p.handler.engine.call (.add 0 (UInt64.ofNat ref) (ascii 'B') 1 (UInt32.ofNat price))) := by
  obtain ⟨a, decoded, call⟩ := bidMessage_decode ref price
  refine ⟨a, call, ?_⟩
  rw [parse_handler, if_pos (@Parser.addOrder_formed (bidMessage ref price) rfl), decoded, BookBuilder.on,
    BookBuilder.onBookMessage_eq, call]

variable (B) (expectedOrders : Nat) (recvTsc : UInt64) {first : Nat}

theorem run_bids (n : Nat) : ((create B expectedOrders recvTsc).run accepts (bidMessages first n)).handler.engine =
    (BookEngine.create B expectedOrders).run (BookEngine.ascendingBids first n) := by
  induction n with
  | zero => rw [BookEngine.ascendingBids_zero]; rfl
  | succ n ih =>
    obtain ⟨a, -, step⟩ := @parse_bid B n (first + n) accepts
      ((create B expectedOrders recvTsc).run accepts (bidMessages first n))
    rw [bidMessages_succ, run, List.foldl_append, BookEngine.ascendingBids_succ, BookEngine.run, List.foldl_append]
    rw [run] at step ih
    rw [BookEngine.run] at ih
    exact (congrArg BookBuilder.engine step).trans (ih ▸ rfl)

theorem room_bids {n : Nat} (below : n ≤ 2 ^ 31) (prices : first + n ≤ 2 ^ 32) :
    RoomAll accepts (create B expectedOrders recvTsc) (bidMessages first n) := by
  induction n with
  | zero => exact trivial
  | succ n ih =>
    rw [bidMessages_succ]
    refine Runs.every_append.mpr ⟨ih (by omega) (by omega), fun _ m decoded => ?_⟩
    obtain ⟨a, same, call⟩ := bidMessage_decode n (first + n)
    obtain rfl : BookMessage.addOrder a = m := Message.book.inj (same.symm.trans decoded)
    obtain ⟨-, size, -⟩ := @BookEngine.ascendingBids_side first B expectedOrders n (by omega) (by omega)
    rw [← @run_bids B accepts expectedOrders recvTsc] at size
    rw [call]
    exact .inl (lt_of_eq_of_lt size (by omega))

variable {B}

/-- A bid at the price 1, below those of a full side, leaves the cache of its book behind. -/
theorem stale_bid {p : FeedParser B} (current : p.handler.Current) (full : (p.handler.engine.sides 0 true).size = 2 ^ 31)
    (zero : (p.handler.engine.sides 0 true).lookup 0 = none) (one : (p.handler.engine.sides 0 true).lookup 1 = none) :
    ((p.parse accepts (bidMessage ref 1).encode).handler.sink.bbo 0).top ≠
      ((p.parse accepts (bidMessage ref 1).encode).handler.engine.books 0).top := by
  obtain ⟨a, -, step⟩ := @parse_bid B ref 1 accepts p
  obtain ⟨quiet, l', lost, key'⟩ := LevelSide.add_below_full B.search (current.wf 0 true) 1 full zero one
  obtain ⟨l, best, key⟩ := LevelSide.best_ne_zero (current.wf 0 true) (by omega)
  obtain ⟨-, sides, -, update⟩ := BookEngine.add_effect p.handler.engine
    { ref := UInt64.ofNat ref, price := 1, shares := 1, side := ascii 'B' }
  have bid : ((p.handler.engine.add 0 (UInt64.ofNat ref) (ascii 'B') 1 1).1.sides 0 true).best = some l' := by
    rw [sides]
    exact lost
  have bbo := (@Publisher.onBook_quiet _ accepts (p.handler.engine.add 0 (UInt64.ofNat ref) (ascii 'B') 1 1).1 p.handler.sink
    (.addOrder a) _ ((congrArg BookUpdate.topChanged update).trans quiet)).1
  intro same
  rw [step] at same
  have behind : (p.handler.sink.bbo 0).top =
      ((p.handler.engine.add 0 (UInt64.ofNat ref) (ascii 'B') 1 1).1.books 0).top := bbo ▸ same
  rw [current.current, BookEngine.top_eq, BookEngine.top_eq, best, bid] at behind
  have prices := congrArg TopOfBook.bidPrice behind
  exact key (prices.trans key')

-- too long a feed to unfold it
attribute [irreducible] bidMessages

end FeedParser

end Itch
