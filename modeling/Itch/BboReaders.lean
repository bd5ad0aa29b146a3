import Itch.BboCacheInvariant
import Itch.FeedThreads

namespace Itch

/-- What a store under way has been given. -/
def StorePhase.pending : StorePhase → List BboSnapshot
  | .idle => []
  | .seqOdd new _ => [new]
  | .prices new _ => [new]
  | .bidQty new _ => [new]
  | .askQty new _ => [new]
  | .ts new _ => [new]
  | .seqEven new _ => [new]

namespace BboCache

variable {ι : Type}

/-- A step of a store finishes it or leaves it under way. -/
theorem writerStep_pending {s : BboCache ι} (busy : s.writer.pending ≠ []) (new : BboSnapshot) :
    (s.writerStep new).stores ++ (s.writerStep new).writer.pending = s.stores ++ s.writer.pending := by
  unfold writerStep
  split <;> rename_i phase <;> rw [phase] at busy ⊢
  · exact absurd rfl busy
  · rfl
  · rfl
  · rfl
  · rfl
  · rfl
  · exact List.append_nil _

theorem store_stores {s : BboCache ι} (idle : s.writer = .idle) (new : BboSnapshot) :
    (s.store new).stores = s.stores ++ [new] := by
  simp only [store, Function.iterate_succ_apply', Function.iterate_zero, id_eq, writerStep, idle]

end BboCache

/-- The cache of one book, and the tops that the feed thread has still to store in it. -/
structure WatchedCache (ι : Type) where
  cache : BboCache ι := {}
  todo : List BboSnapshot

namespace WatchedCache

variable {ι : Type} [DecidableEq ι]

/-- One access of the feed thread to the cache. -/
def writerTurn (s : WatchedCache ι) : WatchedCache ι :=
  match s.cache.writer, s.todo with
  | .idle, [] => s
  | .idle, new :: todo => { cache := s.cache.writerStep new, todo }
  | _, _ => { s with cache := s.cache.writerStep {} }

/-- A turn of the feed thread, or of one of the readers. -/
def turn (s : WatchedCache ι) : Option ι → WatchedCache ι
  | none => s.writerTurn
  | some r => { s with cache := (s.cache.readerStep r).2 }

def run (s : WatchedCache ι) (turns : List (Option ι)) : WatchedCache ι := turns.foldl turn s

/-- The stores so far, the one under way and those to come are those that the feed thread makes. -/
structure Inv (news : List BboSnapshot) (s : WatchedCache ι) : Prop where
  cache : s.cache.Inv
  stores : s.cache.stores ++ (s.cache.writer.pending ++ s.todo) = news

variable {news : List BboSnapshot} {s : WatchedCache ι}

omit [DecidableEq ι] in
theorem Inv.few (inv : s.Inv news) (few : news.length < 2 ^ 63) : s.cache.stores.length < 2 ^ 63 := by
  have total := congrArg List.length inv.stores
  rw [List.length_append] at total
  omega

omit [DecidableEq ι] in
theorem writerTurn_inv (few : news.length < 2 ^ 63) (inv : s.Inv news) : s.writerTurn.Inv news := by
  have stores := inv.stores
  -- A step that keeps what is stored and under way together stays below the bound.
  have step : ∀ new todo, (s.cache.writerStep new).stores ++ ((s.cache.writerStep new).writer.pending ++ todo) = news →
      Inv news { cache := s.cache.writerStep new, todo } := by
    intro new todo same
    have total := congrArg List.length same
    rw [List.length_append] at total
    exact ⟨BboCache.writerStep_inv inv.cache new (by omega), same⟩
  unfold writerTurn
  split
  · exact inv
  · rename_i new todo idle rest
    refine step new todo ?_
    rw [idle, rest] at stores
    rw [BboCache.writerStep, idle]
    exact stores
  · rename_i busy fresh
    have some : s.cache.writer.pending ≠ [] := by
      cases phase : s.cache.writer with
      | idle =>
        cases rest : s.todo with
        | nil => exact absurd rest (busy phase)
        | cons new todo => exact absurd rest (fresh new todo phase)
      | seqOdd new seq => exact List.cons_ne_nil _ _
      | prices new seq => exact List.cons_ne_nil _ _
      | bidQty new seq => exact List.cons_ne_nil _ _
      | askQty new seq => exact List.cons_ne_nil _ _
      | ts new seq => exact List.cons_ne_nil _ _
      | seqEven new seq => exact List.cons_ne_nil _ _
    refine step {} s.todo ?_
    rw [← List.append_assoc, BboCache.writerStep_pending some, List.append_assoc]
    exact stores

theorem readerStep_writer (s : BboCache ι) (r : ι) : (s.readerStep r).2.writer = s.writer := by
  unfold BboCache.readerStep
  split
  · split <;> rfl
  · rfl
  · rfl
  · rfl
  · rfl
  · dsimp only
    split <;> rfl

theorem turn_inv (few : news.length < 2 ^ 63) (inv : s.Inv news) (t : Option ι) : (s.turn t).Inv news := by
  cases t with
  | none => exact writerTurn_inv few inv
  | some r =>
    refine ⟨(BboCache.readerStep_inv inv.cache rfl).1, ?_⟩
    show (s.cache.readerStep r).2.stores ++ ((s.cache.readerStep r).2.writer.pending ++ s.todo) = news
    have stores : (s.cache.readerStep r).2.stores = s.cache.stores := BboCache.readerStep_stores (Prod.mk.eta).symm
    rw [stores, readerStep_writer]
    exact inv.stores

/-- In every interleaving a load that succeeds returns the store that its sequence numbers. -/
theorem run_loads (few : news.length < 2 ^ 63) (turns : List (Option ι)) (r : ι) :
    (((⟨{}, news⟩ : WatchedCache ι).run turns).cache.loads r).Pairwise (fun earlier later => earlier.1 / 2 ≤ later.1 / 2) ∧
      ∀ load ∈ ((⟨{}, news⟩ : WatchedCache ι).run turns).cache.loads r,
        (({} : BboSnapshot) :: news)[load.1 / 2]? = some load.2 := by
  have inv := Runs.invariant (Inv news) (fun s t inv => turn_inv few inv t) turns
    (⟨BboCache.initial_inv, rfl⟩ : Inv news (⟨{}, news⟩ : WatchedCache ι))
  have history := inv.cache.loads r
  refine ⟨history.ordered.imp fun earlier => Nat.div_le_div_right earlier, fun load member => ?_⟩
  have found := (history.exact load member).2
  have front : ({} : BboSnapshot) :: ((⟨{}, news⟩ : WatchedCache ι).run turns).cache.stores <+: {} :: news :=
    List.cons_prefix_cons.mpr ⟨rfl, ⟨_, inv.stores⟩⟩
  obtain ⟨inside, value⟩ := List.getElem?_eq_some_iff.mp found
  rw [← value]
  exact List.getElem?_eq_some_iff.mpr ⟨inside.trans_le front.length_le, (front.getElem inside).symm⟩

end WatchedCache

variable {B : Build}

namespace BookBuilder

/-- Between messages no store is under way, and every cache shows the last of its stores. -/
def Stored (b : BookBuilder B Publisher) : Prop := ∀ locate, (b.sink.bbo locate).writer = .idle ∧
  (({} : BboSnapshot) :: (b.sink.bbo locate).stores).getLast? = some (b.sink.bbo locate).stored

/-- A store adds one entry to the history of its cache. -/
theorem Stored.update {b : BookBuilder B Publisher} (stored : b.Stored) (locate : UInt16) (new : BboSnapshot) (l : UInt16) :
    (Function.update b.sink.bbo locate ((b.sink.bbo locate).store new) l).writer = .idle ∧
      (({} : BboSnapshot) :: (Function.update b.sink.bbo locate ((b.sink.bbo locate).store new) l).stores).getLast? =
        some (Function.update b.sink.bbo locate ((b.sink.bbo locate).store new) l).stored := by
  rw [Function.update_apply]
  split
  · obtain ⟨words, idle⟩ := BboCache.store_stored (stored locate).1 new
    rw [BboCache.store_stores (stored locate).1, words, ← List.cons_append]
    exact ⟨idle, List.getLast?_concat⟩
  · exact stored l

end BookBuilder

namespace FeedParser

/-- A message stores at most one top in the cache of a book. -/
theorem parse_stores {p : FeedParser B} (stored : p.handler.Stored) (accepts : List BookEvent → Bool) (msg : List UInt8) :
    (p.parse accepts msg).handler.Stored ∧ ∀ locate,
      ((p.parse accepts msg).handler.sink.bbo locate).stores = (p.handler.sink.bbo locate).stores ∨
        ∃ new, ((p.parse accepts msg).handler.sink.bbo locate).stores = (p.handler.sink.bbo locate).stores ++ [new] := by
  have same : ∀ b : BookBuilder B Publisher, b.sink.bbo = p.handler.sink.bbo → b.Stored ∧ ∀ locate,
      (b.sink.bbo locate).stores = (p.handler.sink.bbo locate).stores ∨
        ∃ new, (b.sink.bbo locate).stores = (p.handler.sink.bbo locate).stores ++ [new] := by
    intro b bbo
    rw [BookBuilder.Stored, bbo]
    exact ⟨stored, fun locate => .inl rfl⟩
  rw [parse_handler]
  split
  · cases Message.decode msg with
    | book m =>
      rw [BookBuilder.on, BookBuilder.onBookMessage_eq]
      by_cases changed : (p.handler.engine.call m.call).2.topChanged = true
      · obtain ⟨⟨new, bbo, -⟩, -⟩ := Publisher.onBook_changed accepts (p.handler.engine.call m.call).1 p.handler.sink m
          (BookEngine.call_known _ _ changed) changed
        have after : (p.handler.notify (Publisher.sink accepts) m (p.handler.engine.call m.call)).sink.bbo = _ := bbo
        rw [BookBuilder.Stored, after]
        refine ⟨stored.update _ new, fun locate => ?_⟩
        rw [Function.update_apply]
        split
        · rename_i here
          rw [here]
          exact .inr ⟨new, BboCache.store_stores (stored _).1 new⟩
        · exact .inl rfl
      · exact same _ (Publisher.onBook_quiet accepts _ _ m (eq_false_of_ne_true changed)).1
    | stockDirectory m => exact same _ rfl
    | systemEvent m => exact same _ (Publisher.on_quiet _ _).1
    | other p => exact same _ rfl
  · exact ⟨stored, fun locate => .inl rfl⟩

/-- Readers of a book's cache on any threads, while the feed thread parses: in every
interleaving of their accesses, each load that succeeds returns the top that the book had
after one of the messages, and a reader's later loads return no earlier tops. -/
theorem readers_see_tops {ι : Type} [DecidableEq ι] (B : Build) (expectedOrders : TableSize B.group)
    {accepts : List BookEvent → Bool} {msgs : List (List UInt8)} (room : RoomAll accepts (create B expectedOrders 0) msgs) (few : msgs.length < 2 ^ 63)
    (locate : UInt16) (turns : List (Option ι)) :
    let news := (((create B expectedOrders 0).run accepts msgs).handler.sink.bbo locate).stores
    let s := (⟨{}, news⟩ : WatchedCache ι).run turns
    ∃ first : Nat → Nat, Monotone first ∧ ∀ r,
      (s.cache.loads r).Pairwise (fun earlier later => first (earlier.1 / 2) ≤ first (later.1 / 2)) ∧
      ∀ load ∈ s.cache.loads r, first (load.1 / 2) ≤ msgs.length ∧
        (⟨load.2.bidPrice, load.2.askPrice, load.2.bidQty, load.2.askQty⟩ : TopOfBook) =
          (((create B expectedOrders 0).run accepts (msgs.take (first (load.1 / 2)))).handler.engine.books locate).top := by
  have start : (create B expectedOrders 0).handler.Stored := fun _ =>
    ⟨rfl, show some ({} : BboSnapshot) = some ({} : BboCache Nat).stored by decide⟩
  have keeps : ∀ (p : FeedParser B) (msg : List UInt8), p.handler.Stored → (p.parse accepts msg).handler.Stored :=
    fun p msg stored => (parse_stores stored accepts msg).1
  have grows : ∀ (p : FeedParser B) (msg : List UInt8), p.handler.Stored →
      ((p.parse accepts msg).handler.sink.bbo locate).stores = (p.handler.sink.bbo locate).stores ∨
        ∃ new, ((p.parse accepts msg).handler.sink.bbo locate).stores = (p.handler.sink.bbo locate).stores ++ [new] :=
    fun p msg stored => (parse_stores stored accepts msg).2 locate
  obtain ⟨first, mono, grown⟩ := @Runs.exists_growth _ _ _ (parse accepts)
    (fun p : FeedParser B => (p.handler.sink.bbo locate).stores) _ keeps grows _ start msgs rfl
  have total : (((create B expectedOrders 0).run accepts msgs).handler.sink.bbo locate).stores.length ≤ msgs.length := by
    have bound := @Runs.log_length_le _ _ _ (parse accepts) (fun p : FeedParser B => (p.handler.sink.bbo locate).stores) _
      keeps grows _ start msgs
    exact bound.trans (Nat.zero_add _).le
  dsimp only
  refine ⟨first, mono, fun r => ?_⟩
  obtain ⟨ordered, loads⟩ := WatchedCache.run_loads (Nat.lt_of_le_of_lt total few) turns r
  refine ⟨ordered.imp fun earlier => mono earlier, fun load member => ?_⟩
  have found := loads load member
  generalize load.1 / 2 = k at found ⊢
  obtain ⟨inside, value⟩ := List.getElem?_eq_some_iff.mp found
  rw [List.length_cons] at inside
  obtain ⟨before, log⟩ := grown k (Nat.le_of_lt_succ inside)
  have stored := (Runs.invariant _ keeps (msgs.take (first k)) start locate).2
  have last : (({} : BboSnapshot) :: (((create B expectedOrders 0).run accepts msgs).handler.sink.bbo locate).stores.take
      k).getLast? = some load.2 := by
    rw [← List.take_succ_cons, List.getLast?_take, if_neg (Nat.succ_ne_zero k), Nat.add_sub_cancel, found, Option.some_or]
  have current := (run_current (create_current B expectedOrders 0) (room.take (first k))).current locate
  refine ⟨before, ?_⟩
  rw [← current]
  have same := stored.symm.trans ((congrArg (fun stores => (({} : BboSnapshot) :: stores).getLast?) log).trans last)
  rw [BboCache.top, ← Option.some.inj same]
  rfl

/-- One reader, after the store for the one bid. -/
theorem readers_see_tops_sample :
    let news := (((create ⟨.avx2, 4⟩ 16 0).run roomy (bidMessages 100 1)).handler.sink.bbo 0).stores
    let s := (⟨{}, news⟩ : WatchedCache Unit).run (List.replicate 7 none ++ List.replicate 6 (some ()))
    ∀ load ∈ s.cache.loads (), ∃ i ≤ (bidMessages 100 1).length,
      (⟨load.2.bidPrice, load.2.askPrice, load.2.bidQty, load.2.askQty⟩ : TopOfBook) =
        (((create ⟨.avx2, 4⟩ 16 0).run roomy ((bidMessages 100 1).take i)).handler.engine.books 0).top := by
  obtain ⟨first, -, seen⟩ := @readers_see_tops Unit _ ⟨.avx2, 4⟩ ⟨16, by decide, by decide⟩ roomy (bidMessages 100 1)
    (@room_bids ⟨.avx2, 4⟩ roomy 16 0 100 1 (by decide) (by decide)) (by decide +kernel) 0
    (List.replicate 7 none ++ List.replicate 6 (some ()))
  exact fun load member => ⟨first (load.1 / 2), (seen ()).2 load member⟩

end FeedParser

end Itch
