import Itch.SyntheticFeedReplay
import Itch.SyntheticFeedSize

namespace Itch

namespace SyntheticFeed

open Fallible

/-- With these 2 ^ 32 + 1 orders are added. -/
def crowdConfig : SyntheticFeedConfig where
  symbols := 1
  events := 2
  initialOrders := 0xFFFFFFFF
  cdf := [1]

/-- A feed of one symbol, whose live orders are all bids at one price. -/
structure Crowd (i : Nat) (f : SyntheticFeed Unit) : Prop where
  good : ∃ sent, Good 1 f sent
  size : f.out.length ≤ 69 + i * 42
  mid : (f.syms 0).mid = 100000
  count : (f.syms 0).live.length = i
  same : ∀ l ∈ (f.syms 0).live, l.price = 99900 ∧ l.side = ascii 'B'

variable {f : SyntheticFeed Unit} {i : Nat}

/-- A low draw adds a bid one tick behind the mid price. -/
theorem addOrder_low (mid : (f.syms 0).mid = 100000) : Ends True (addOrder lowDraws 0)
    (fun _ g => ∃ l, g.syms = Function.update f.syms 0 { f.syms 0 with live := (f.syms 0).live ++ [l] } ∧
      l.price = 99900 ∧ l.side = ascii 'B') f := by
  refine ends_bind.mpr (ends_draw_iff.mpr (ends_bind.mpr (ends_get.mpr (ends_bind.mpr (ends_takeRef.mpr (ends_bind.mpr ?_))))))
  have price : (f.syms 0).mid - kTick * (1 + 0) = 99900 := by
    rw [mid]
    decide
  refine ends_bind.mpr (ends_draw_iff.mpr ((ends_pure _).mpr (ends_bind.mpr ?_)))
  refine ends_pickShares lowDraws fun shares rng some => ends_bind.mpr (ends_setLive.mpr (ends_bind.mpr ?_))
  refine ends_draw_iff.mpr (ends_bind.mpr (ends_fillHeader lowDraws fun h rng ts locate => ends_ite.mpr ?_))
  rw [if_pos (by rfl)]
  exact ends_write (by simp [MessageType.all]) fun _ => ⟨_, rfl, price, rfl⟩

theorem Crowd.add (crowd : Crowd i f) (room : 69 + (i + 1) * 42 ≤ kMaxSize) :
    Ends False (addOrder lowDraws 0) (fun _ g => Crowd (i + 1) g) f := by
  obtain ⟨⟨sent, good⟩, size, mid, count, same⟩ := crowd
  have total := appends_addOrder lowDraws 0 f (by omega)
  refine (total.and ((addOrder_ends lowDraws Nat.zero_lt_one good).and (addOrder_low mid))).mono fun _ g after => ?_
  obtain ⟨⟨-, longer⟩, good, l, syms, new⟩ := after
  refine ⟨good, by omega, ?_, ?_, ?_⟩
  · rw [syms, Function.update_self]
    exact mid
  · rw [syms, Function.update_self]
    change ((f.syms 0).live ++ [l]).length = i + 1
    rw [List.length_append, count]
    rfl
  · rw [syms, Function.update_self]
    exact List.forall_mem_append.mpr ⟨same, List.forall_mem_singleton.mpr new⟩

theorem Crowd.drawn (crowd : Crowd i f) (rng : Unit) : Crowd i { f with rng } := by
  obtain ⟨⟨sent, good⟩, size, mid, count, same⟩ := crowd
  exact ⟨⟨sent, good.drawn rng⟩, size, mid, count, same⟩

theorem Crowd.step {cfg : SyntheticFeedConfig} (one : cfg.symbols = 1) (crowd : Crowd i f)
    (room : 69 + (i + 1) * 42 ≤ kMaxSize) : Ends False (step lowDraws cfg) (fun _ g => Crowd (i + 1) g) f := by
  have some : cfg.symbols ≠ 0 := by
    rw [one]
    decide
  refine ends_bind.mpr (pickSymbol_ends lowDraws some fun sym rng inside => ends_bind.mpr (ends_draw_iff.mpr ?_))
  rw [one] at inside
  have first : sym = 0 := Nat.lt_one_iff.mp inside
  have low : (0 : Rat) < 42 / 100 := by decide +kernel
  refine ends_bind.mpr (ends_get.mpr (ends_ite.mpr ?_))
  rw [if_pos (.inr low), first]
  exact (crowd.drawn rng).add room

/-- The orders of a crowd all rest at one level. -/
theorem Crowd.resting (crowd : Crowd i f) {l : Live} (member : l ∈ (f.syms 0).live) {live : List Live}
    (among : ∀ other ∈ live, other ∈ (f.syms 0).live) :
    restingAt (live.map (order 0)) (order 0 l).locate (order 0 l).bid (order 0 l).key = live.map (order 0) := by
  refine List.filter_eq_self.mpr fun o inside => ?_
  obtain ⟨other, present, rfl⟩ := List.mem_map.mp inside
  obtain ⟨price, side⟩ := crowd.same l member
  obtain ⟨price', side'⟩ := crowd.same other (among other present)
  have key : (order 0 other).key = (order 0 l).key := by
    rw [Order.key, Order.key, order, order, price, side, price', side']
  have bid : (order 0 other).bid = (order 0 l).bid := by
    rw [Order.bid, Order.bid, order, order, side, side']
  rw [decide_eq_true_eq]
  exact ⟨rfl, bid, key⟩

/-- What a delete sends. -/
theorem deleteOrder_sends (sym idx : Nat) : Ends True (deleteOrder lowDraws sym idx)
    (fun _ g => ∃ msg m, g.out = f.out ++ framed msg ∧ msg.length < 2 ^ 16 ∧
      Message.decode msg = .book (.orderDelete m) ∧ m.ref = ((f.syms sym).live.getD idx default).ref) f := by
  refine ends_bind.mpr (ends_fillHeader lowDraws fun h rng ts locate => ?_)
  refine ends_bind.mpr (ends_get.mpr (ends_bind.mpr ?_))
  refine ends_write (by simp [MessageType.all]) fun wrote => ends_eraseLive.mpr ?_
  have decoded := wrote.decode (fun m => .book (.orderDelete (.of m))) fun _ => rfl
  refine ⟨_, _, ?_, encoded_short wrote.member _, decoded, rfl⟩
  rw [framed, encoded_length wrote.member]
  exact wrote.out

/-- Whether the counts do not bear the records that a stream starts with. -/
def Broken (out : List UInt8) : Prop := ∃ front : List (List UInt8), (∀ msg ∈ front, msg.length < 2 ^ 16) ∧
  front.flatMap framed <+: out ∧ ¬ Runs.Every FeedSession.on FeedSession.Counts {} (front.map Message.decode)

theorem Broken.longer {out out' : List UInt8} (broken : Broken out) (longer : out <+: out') : Broken out' := by
  obtain ⟨front, short, starts, uncounted⟩ := broken
  exact ⟨front, short, starts.trans longer, uncounted⟩

/-- A delete from a crowd of 2 ^ 32 + 1 orders. -/
theorem Crowd.delete {k idx : Nat} (crowd : Crowd (k + 1) f) (wraps : ¬ Counted k) (here : idx < k + 1) :
    Ends True (deleteOrder lowDraws 0 idx) (fun _ g => Broken g.out) f := by
  refine (deleteOrder_sends 0 idx).mono fun _ g sends => ?_
  obtain ⟨msg, m, out, short, decoded, ref⟩ := sends
  obtain ⟨sent, good⟩ := crowd.good
  have inside : idx < (f.syms 0).live.length := crowd.count ▸ here
  have split := getD_perm inside
  refine ⟨sent ++ [msg], ?_, ?_, ?_⟩
  · exact List.forall_mem_append.mpr ⟨good.records.short, List.forall_mem_singleton.mpr short⟩
  · rw [List.flatMap_append, List.flatMap_singleton, ← good.records.out, out]
  · rw [List.map_append, List.map_singleton, Runs.every_append, decoded]
    rintro ⟨-, counts⟩
    have all : orders 1 f.syms = (f.syms 0).live.map (order 0) := List.append_nil _
    have live := (good.inStep.live.trans (List.Perm.of_eq all)).trans (split.map (order 0))
    have found : (session sent).engine.live.find? m.ref = some (order 0 ((f.syms 0).live.getD idx default)) := by
      rw [ref]
      exact NaiveEngine.find_split live
    have left : ((session sent).engine.live.erase m.ref).entries.Perm (((f.syms 0).live.eraseIdx idx).map (order 0)) := by
      rw [ref]
      exact NaiveEngine.erase_split live
    have level := crowd.resting (getD_mem inside) fun other among => split.mem_iff.mpr (List.mem_cons_of_mem _ among)
    have rest := (restingAt_perm left).length_eq.trans (congrArg List.length level)
    rw [List.length_map, List.length_eraseIdx_of_lt inside, crowd.count] at rest
    exact wraps (Eq.mp (congrArg Counted rest) (counts _ found))

/-- The start of a crowd: one symbol, no orders. -/
theorem initSymbols_low {cfg : SyntheticFeedConfig} (one : cfg.symbols = 1) (rng : Unit) :
    Ends True (initSymbols lowDraws cfg) (fun _ g => (g.syms 0).mid = 100000 ∧ (g.syms 0).live = []) { rng } := by
  refine ends_bind.mpr (ends_modify.mpr ?_)
  have mid : UInt32.ofNat (10 * 100) * kTick = 100000 := by decide
  rw [one]
  exact ⟨mid, rfl⟩

theorem emitDirectory_low (sym : Nat) : Ends True (emitDirectory lowDraws sym) (fun _ g => g.syms = f.syms) f := by
  refine ends_bind.mpr (ends_fillHeader lowDraws fun h rng ts locate => ?_)
  exact ends_write (by simp [MessageType.all]) fun _ => rfl

/-- A feed of one symbol before its first order. -/
structure Start (size : Nat) (f : SyntheticFeed Unit) : Prop where
  good : ∃ sent, Good 1 f sent
  size : f.out.length ≤ size
  mid : (f.syms 0).mid = 100000
  live : (f.syms 0).live = []

theorem Start.crowd (start : Start 69 f) : Crowd 0 f where
  good := start.good
  size := start.size
  mid := start.mid
  count := by rw [start.live, List.length_nil]
  same := by
    rw [start.live]
    exact nofun

theorem Start.system {size : Nat} (start : Start size f) (code : Char) (room : size + 14 ≤ kMaxSize) :
    Ends False (emitSystem code) (fun _ g => Start (size + 14) g) f := by
  obtain ⟨⟨sent, good⟩, small, mid, live⟩ := start
  have total := appends_emitSystem code f (by omega)
  refine (total.and (emitSystem_ends good code)).mono fun _ g after => ?_
  obtain ⟨⟨-, longer⟩, good, syms⟩ := after
  exact ⟨good, by omega, syms ▸ mid, syms ▸ live⟩

theorem Start.directory {size : Nat} (start : Start size f) (sym : Nat) (room : size + 41 ≤ kMaxSize) :
    Ends False (emitDirectory lowDraws sym) (fun _ g => Start (size + 41) g) f := by
  obtain ⟨⟨sent, good⟩, small, mid, live⟩ := start
  have total := appends_emitDirectory lowDraws sym f (by omega)
  refine (total.and ((emitDirectory_ends lowDraws good sym).and (emitDirectory_low sym))).mono fun _ g after => ?_
  obtain ⟨⟨-, longer⟩, good, syms⟩ := after
  exact ⟨good, by omega, syms ▸ mid, syms ▸ live⟩

section Low

variable {cfg : SyntheticFeedConfig} (one : cfg.symbols = 1) {k : Nat} (wraps : ¬ Counted k)
  (room : 69 + (k + 1) * 42 + (k + 1) * 21 + 28 ≤ kMaxSize)
include one wraps room

/-- The first delete breaks the stream, however it goes on. -/
theorem drain_low (crowd : Crowd (k + 1) f) : Ends False (drain lowDraws cfg)
    (fun _ g => Broken g.out ∧ g.out.length ≤ 69 + (k + 1) * 42 + (k + 1) * 21) f := by
  have size := crowd.size
  rw [drain, one]
  refine ends_bind.mpr (ends_bind.mpr (ends_get.mpr ?_))
  rw [crowd.count]
  refine ends_bind.mpr (ends_get.mpr (ends_ite.mpr ?_))
  have some : (f.syms 0).live ≠ [] := by
    rw [← List.length_pos_iff, crowd.count]
    exact Nat.succ_pos k
  rw [if_neg some]
  have total := appends_deleteOrder lowDraws 0 ((f.syms 0).live.length - 1) f (by omega)
  refine ends_bind.mpr ((total.and (crowd.delete wraps (by rw [crowd.count]; omega))).mono fun _ g after => ?_)
  obtain ⟨⟨-, longer⟩, broken⟩ := after
  refine (appends_drainSymbol lowDraws 0 k g (by omega)).mono fun _ t rest => ?_
  exact ⟨broken.longer rest.1, rest.2.trans (by omega)⟩

/-- Low draws make a crowd of all orders. -/
theorem build_low (total : cfg.initialOrders.toNat + cfg.events.toNat = k + 1) :
    Ends False (build lowDraws cfg) (fun _ g => Broken g.out) { rng := () } := by
  have once : cfg.symbols.toNat = 1 := by
    rw [one]
    rfl
  have some : cfg.symbols ≠ 0 := by
    rw [one]
    decide
  refine ends_bind.mpr (ends_modify.mpr (ends_bind.mpr ?_))
  have init := (appends_initSymbols lowDraws cfg { rng := () } (Nat.zero_le _)).and
    ((initSymbols_ends lowDraws ()).and (initSymbols_low one ()))
  refine init.mono fun _ f after => ends_bind.mpr ?_
  obtain ⟨⟨-, size⟩, good, mid, live⟩ := after
  rw [once] at good
  have start : Start 0 f := ⟨good, size, mid, live⟩
  refine (start.system 'O' (by decide)).mono fun _ f start => ends_bind.mpr ?_
  refine (@Ends.forM _ _ _ (fun i g => Start (14 + i * 41) g) _ _ ?_ start).mono fun _ f start => ends_bind.mpr ?_
  · intro sym inside g start
    exact (start.directory sym (by omega)).mono fun _ _ after => by rwa [Nat.succ_mul]
  rw [once] at start
  refine (start.system 'Q' (by decide)).mono fun _ f start => ends_bind.mpr ?_
  refine (@Ends.forM _ _ _ (fun i g => Crowd (i * cfg.initialOrders.toNat) g) _ _ ?_ ?_).mono fun _ f crowd => ends_bind.mpr ?_
  · intro sym inside g crowd
    have first : sym = 0 := by omega
    subst first
    rw [Nat.zero_mul] at crowd
    rw [Nat.zero_add, Nat.one_mul]
    refine @Ends.forM _ _ _ Crowd _ _ ?_ crowd
    exact fun i less t crowd => crowd.add (by omega)
  · rw [Nat.zero_mul]
    exact start.crowd
  rw [once, Nat.one_mul] at crowd
  refine (@Ends.forM _ _ _ (fun i g => Crowd (cfg.initialOrders.toNat + i) g) _ _ ?_ crowd).mono fun _ f crowd =>
    ends_bind.mpr ?_
  · exact fun i less t crowd => @Crowd.step t (cfg.initialOrders.toNat + i) cfg one crowd (by omega)
  rw [total] at crowd
  refine (drain_low one wraps room crowd).mono fun _ f broken => ends_bind.mpr ?_
  refine (appends_emitSystem 'M' f (by omega)).mono fun _ g last => ?_
  refine (appends_emitSystem 'C' g (by omega)).mono fun _ h closed => ?_
  exact broken.1.longer (last.1.trans closed.1)

end Low

/-- A feed that breaks is not replayed without an error. -/
theorem Broken.unreplayed {cfg : SyntheticFeedConfig} (some : cfg.symbols ≠ 0) {R : Rng Unit}
    (built : build R cfg { rng := () } = .some ((), f)) (broken : Broken f.out) {B : Build} {p : Parser (BookBuilder B Unit)}
    (idle : p.handler.engine.Idle) : ¬ FeedSession.Replayed p f.out f.messages := by
  intro replayed
  obtain ⟨sent, records, drained⟩ := (build_ends R some ()).of_run built
  obtain ⟨front, short, starts, uncounted⟩ := broken
  obtain ⟨rest, whole⟩ := written_front records.out records.short starts short
  rw [records.messages] at replayed
  have counts := (FeedSession.replayed_iff records.out records.formed records.short records.consistent records.ticked drained
    idle).mp replayed
  rw [← whole, List.map_append, Runs.every_append_run] at counts
  exact uncounted counts.1

theorem crowd_unreplayed : ∃ f, build lowDraws crowdConfig { rng := () } = some ((), f) ∧
    ∀ (B : Build) (p : Parser (BookBuilder B Unit)), p.handler.engine.Idle → ¬ FeedSession.Replayed p f.out f.messages := by
  have wraps : ¬ Counted (2 ^ 32) := by decide
  have total : crowdConfig.initialOrders.toNat + crowdConfig.events.toNat = 2 ^ 32 + 1 := by decide
  have room : 69 + (2 ^ 32 + 1) * 42 + (2 ^ 32 + 1) * 21 + 28 ≤ kMaxSize := by decide
  have one : crowdConfig.symbols = 1 := rfl
  generalize crowdConfig = cfg at *
  generalize 2 ^ 32 = k at *
  obtain ⟨⟨⟨⟩, f⟩, built, broken⟩ := (build_low one wraps room total).exists
  exact ⟨f, built, fun B p idle => broken.unreplayed (by rw [one]; decide) built idle⟩

end SyntheticFeed

end Itch
