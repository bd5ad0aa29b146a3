import Itch.LiveReplay

namespace Itch

/-- A poll that finds these packets, told by their numbers, with the times of their receipt. -/
def livePoll (pkts : List (List UInt8)) (turn : List (Nat × UInt64)) : LivePoll where
  packets := turn.map fun a => ⟨pkts.getD a.1 [], a.2⟩

theorem livePoll_data (pkts : List (List UInt8)) (turns : List (List (Nat × UInt64))) :
    ((turns.map (livePoll pkts)).flatMap LivePoll.packets).map LivePacket.data =
      (turns.flatten.map Prod.fst).map fun i => pkts.getD i [] := by
  induction turns with
  | nil => rfl
  | cons turn turns ih =>
    rw [List.map_cons, List.flatMap_cons, List.map_append, ih, List.flatten_cons, List.map_append, List.map_append]
    congr 1
    simp [livePoll]

namespace MoldSession

variable {m : MoldSession}

theorem wire_endOfSession (s : MoldSequencer) (i : Nat) :
    (s.onPacket (m.wire i)).result.endOfSession = decide (m.batches.length ≤ i) := by
  rw [wire]
  split
  · rename_i data
    have outcome := MoldSequencer.onPacket_moldPacket m.ten (m.batch_framed i) (m.batch_small i) (m.batch_bound i) s
    simp only [← seqAt_succ, ← packet.eq_1] at outcome
    rw [outcome]
    simpa using data
  · rename_i last
    rw [m.onPacket_endPacket]
    simpa using last

/-- When the first arrivals of all packets are in order, all messages have been handed on. -/
theorem replayed_all {arrivals : List Nat} (ordered : FirstArrivalsInOrder arrivals)
    (all : ∀ i < m.batches.length, i ∈ arrivals) : m.Replayed arrivals m.batches.length := by
  obtain ⟨k, replayed⟩ := @replayed_of_arrivals m arrivals [] (by simpa using ordered) (by simpa using all)
  have complete : k = m.batches.length := by
    have within := replayed.within
    by_contra short
    have arrived := (replayed.arrived k (by omega)).mp (all k (by omega))
    omega
  exact complete ▸ replayed

end MoldSession

namespace LiveLoop

variable {B : Build} {accepts accepts' : List BookEvent → Bool} {s : LiveLoop B}

theorem onPacket_running (s : LiveLoop B) (pkt : LivePacket) :
    (s.onPacket accepts pkt).running = (s.running && !(s.seq.onPacket pkt.data).result.endOfSession) := by
  unfold onPacket
  dsimp only
  split <;> rename_i ended
  · rw [ended, Bool.not_true, Bool.and_false]
  · rw [eq_false_of_ne_true ended, Bool.not_false, Bool.and_true]
    split <;> rfl

/-- A poll stops the loop exactly if it finds a packet behind the data packets. -/
theorem livePoll_running {m : MoldSession} {pkts : List (List UInt8)} {turn : List (Nat × UInt64)}
    (sent : ∀ a ∈ turn, pkts.getD a.1 [] = m.wire a.1) (s : LiveLoop B) :
    (s.turn accepts (livePoll pkts turn)).running = (s.running && !turn.any fun a => m.batches.length ≤ a.1) := by
  show ((turn.map fun a => ⟨pkts.getD a.1 [], a.2⟩).foldl (onPacket accepts) s).running = _
  induction turn generalizing s with
  | nil => simp
  | cons a turn ih =>
    obtain ⟨first, rest⟩ := List.forall_mem_cons.mp sent
    rw [List.map_cons, List.foldl_cons, ih rest, onPacket_running, first, m.wire_endOfSession, Bool.and_assoc, List.any_cons,
      Bool.not_or]

/-- The loop goes on over polls that do not stop it, up to one that does. -/
theorem run_until {early : List LivePoll} {last : LivePoll} (later : List LivePoll) (running : s.running = true)
    (goes : ∀ poll ∈ early, ∀ t : LiveLoop B, t.running = true → (t.turn accepts poll).running = true)
    (stops : ∀ t : LiveLoop B, (t.turn accepts last).running = false) :
    s.run accepts (early ++ last :: later) = (early ++ [last]).foldl (turn accepts) s := by
  induction early generalizing s with
  | nil =>
    rw [List.nil_append, run, if_pos running]
    show run accepts (s.turn accepts last) later = s.turn accepts last
    cases later with
    | nil => rfl
    | cons poll later => rw [run, if_neg (by simp [stops])]
  | cons poll early ih =>
    obtain ⟨first, rest⟩ := List.forall_mem_cons.mp goes
    rw [List.cons_append, run, if_pos running, ih (first s running) rest]
    rfl

theorem Follows.turns {start : FeedParser B} {pkts : List (List UInt8)} (follows : s.Follows accepts' start pkts)
    (accepts : List BookEvent → Bool) (polls : List LivePoll) :
    (polls.foldl (LiveLoop.turn accepts) s).Follows accepts' start
      (pkts ++ (polls.flatMap LivePoll.packets).map LivePacket.data) := by
  induction polls generalizing s pkts with
  | nil =>
    show s.Follows accepts' start (pkts ++ [])
    rw [List.append_nil]
    exact follows
  | cons poll polls ih =>
    have rest := ih (follows.turn accepts poll)
    rw [List.append_assoc, ← List.map_append] at rest
    exact rest

/-- The live handler that gets every packet of a file at least once, the first arrivals in
order, with the end of the session not before the poll of the last packet: it stops after
that poll, reports no gap and no loss, and its books, counters and events are those of a
replay of the file. -/
theorem live_replays_file (B : Build) (expectedOrders : Nat) (accepts accepts' : List BookEvent → Bool)
    (cfg : ReplayConfig) (name : List UInt8) (mtu : Int) {data : List UInt8} (fits : data.length < 2 ^ 64)
    {early : List (List (Nat × UInt64))} {last : List (Nat × UInt64)}
    (sent : ∀ a ∈ early.flatten ++ last, a.1 < (moldSend name mtu data).length)
    (all : ∀ i < (dataPackets (moldSession name) mtu data).length, i ∈ (early.flatten ++ last).map Prod.fst)
    (ordered : FirstArrivalsInOrder ((early.flatten ++ last).map Prod.fst))
    (goes : ∀ a ∈ early.flatten, a.1 < (dataPackets (moldSession name) mtu data).length)
    (stops : ∃ a ∈ last, (dataPackets (moldSession name) mtu data).length ≤ a.1) (later : List LivePoll) :
    let s := (initial B expectedOrders).run accepts
      (early.map (livePoll (moldSend name mtu data)) ++ livePoll (moldSend name mtu data) last :: later)
    s.running = false ∧ s.gaps = 0 ∧ s.lost = 0 ∧ (messages data ≠ [] → s.seq.next = (messages data).length + 1) ∧
      ∃ r stop, runReplay (BookBuilder.handler (Publisher.sink accepts')) (fun _ => true) data kSlice cfg
          { parser := FeedParser.create B expectedOrders 0 } = some (r, stop) ∧ s.parser.Alike r.parser := by
  obtain ⟨m, one, flatten, ends, count, -, wire, -⟩ := moldSend_message name mtu fits
  rw [count] at all goes stops
  generalize moldSend name mtu data = pkts at sent wire ⊢
  have onWire : ∀ a ∈ early.flatten ++ last, pkts.getD a.1 [] = m.wire a.1 := fun a member => wire _ (sent a member)
  have stopped : ∀ t : LiveLoop B, (t.turn accepts (livePoll pkts last)).running = false := by
    intro t
    rw [livePoll_running (fun a member => onWire a (List.mem_append_right _ member)), Bool.and_eq_false_iff]
    right
    simpa using stops
  have going : ∀ poll ∈ early.map (livePoll pkts), ∀ t : LiveLoop B, t.running = true → (t.turn accepts poll).running = true := by
    intro poll member t running
    obtain ⟨turn, here, rfl⟩ := List.mem_map.mp member
    have inner : ∀ a ∈ turn, a ∈ early.flatten := fun a inside => List.mem_flatten.mpr ⟨turn, here, inside⟩
    rw [livePoll_running (fun a inside => onWire a (List.mem_append_left _ (inner a inside))), running, Bool.true_and,
      Bool.not_eq_true', List.any_eq_false]
    intro a inside
    simpa using goes a (inner a inside)
  have follows := (initial_follows B expectedOrders accepts').turns accepts ((early ++ [last]).map (livePoll pkts))
  have arrived : ((early.flatten ++ last).map Prod.fst).map (fun i => pkts.getD i []) =
      ((early.flatten ++ last).map Prod.fst).map m.wire :=
    List.map_congr_left fun i member => by
      obtain ⟨a, here, rfl⟩ := List.mem_map.mp member
      exact onWire a here
  have replayed := MoldSession.replayed_all ordered all
  rw [List.nil_append, livePoll_data, List.flatten_append, List.flatten_singleton, arrived] at follows
  generalize (early.flatten ++ last).map Prod.fst = arrivals at follows replayed
  have loop := run_until later (rfl : (initial B expectedOrders).running = true) going stopped
  rw [← List.map_singleton, ← List.map_append] at loop
  obtain ⟨r, stop, result, parser⟩ := runReplay_parses (Publisher.sink accepts') cfg data (FeedParser.create B expectedOrders 0)
  dsimp only
  rw [loop]
  refine ⟨?_, ?_, ?_, ?_, r, stop, result, ?_⟩
  · rw [List.map_append, List.foldl_append]
    exact stopped _
  · rw [follows.gaps, List.countP_eq_zero]
    intro o member
    simpa using (replayed.clean o member).1
  · have none : ∀ n ∈ (({} : MoldSequencer).feed (arrivals.map m.wire)).map fun o => o.result.gapCount, n = 0 :=
      List.forall_mem_map.mpr fun o member => (replayed.clean o member).1
    rw [follows.lost, totalLost, List.sum_eq_zero_iff_forall_eq_nat.mpr none, Nat.zero_mod]
  · intro some
    have texts : (records data).map (List.drop 2) = messages data := (recordsFrom_messages data _ 0).2
    have sending : m.batches.length ≠ 0 := by
      intro none
      rw [List.eq_nil_of_length_eq_zero none, List.flatten_nil] at flatten
      rw [← flatten, List.map_nil] at texts
      exact some texts.symm
    rw [follows.seq, replayed.next, if_neg sending, ← ends, MoldSession.endSeq]
  · have handed := follows.parser
    rw [replayed.delivered, List.take_length, flatten, records, (recordsFrom_messages data _ 0).2, List.zipIdx_map_fst] at handed
    rw [parser]
    exact handed

/-- Two records in two packets, the first of which comes again with the second and the end. -/
theorem live_replays_file_sample :
    ((initial ⟨.avx2, 4⟩ 16).run (fun _ => true) ([[(0, 5)]].map (livePoll (moldSend [65] 23 [0, 1, 83, 0, 0])) ++
      [livePoll (moldSend [65] 23 [0, 1, 83, 0, 0]) [(0, 6), (1, 7), (2, 8)]])).seq.next = 3 :=
  (@live_replays_file ⟨.avx2, 4⟩ 16 (fun _ => true) (fun _ => true) {} [65] 23 [0, 1, 83, 0, 0] (by decide) [[(0, 5)]]
    [(0, 6), (1, 7), (2, 8)] (by decide) (by decide)
    ((((firstArrivalsInOrder_nil.snoc (i := 0) (by simp)).snoc (i := 0) (by simp)).snoc (i := 1) (by simp)).snoc
      (i := 2) (by simp)) (by decide) ⟨(2, 8), by decide, by decide⟩ []).2.2.2.1 (by decide)

end LiveLoop

end Itch
