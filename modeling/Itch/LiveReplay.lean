import Itch.LiveLoop
import Itch.MoldReplay
import Itch.Replay
import Itch.SessionReplay

namespace Itch

theorem length_of_messages {buf msg : List UInt8} (member : msg ∈ messages buf) : msg.length < 2 ^ 16 :=
  ((records_messages buf).bytes (Nat.zero_le _)).2 msg member

/-- Whatever way a file is replayed, the parser has been handed its messages. -/
theorem runReplay_parses {B : Build} {τ : Type} (S : Sink B τ) (cfg : ReplayConfig) (buf : List UInt8)
    (p : Parser (BookBuilder B τ)) :
    ∃ r stop, runReplay (BookBuilder.handler S) (fun _ => true) buf kSlice cfg { parser := p } = some (r, stop) ∧
      r.parser = (messages buf).foldl (Parser.parse (BookBuilder.handler S)) p := by
  have whole : ∀ {msgs stop}, Records buf 0 msgs stop → CutAt buf stop →
      (msgs.foldl (Logged.parse (BookBuilder.handler S)) { parser := p }).parser =
        (messages buf).foldl (Parser.parse (BookBuilder.handler S)) p := by
    intro msgs stop records cut
    rw [(records.unique cut (records_messages buf) (cutAt_consumed buf)).1, Logged.foldl_parse]
  unfold runReplay
  split
  · obtain ⟨msgs, stop, records, cut, result⟩ := replayRecords_records (H := BookBuilder.handler S) (fun _ => rfl) buf 0
      (Nat.zero_le _) (Nat.lt_succ_self _) { parser := p }
    exact ⟨_, stop, result, whole records cut⟩
  · obtain ⟨msgs, stop, records, cut, result⟩ := replaySlices_records (BookBuilder.handler_pure S) (fun _ => rfl) buf
      (by decide : 65537 ≤ kSlice) cfg.prefetch 0 (Nat.zero_le _) (Nat.lt_succ_self _) { parser := p }
    exact ⟨_, stop, result, whole records cut⟩

theorem totalLost_snoc (outcomes : List MoldOutcome) (o : MoldOutcome) :
    totalLost (outcomes ++ [o]) = totalLost outcomes + o.result.gapCount := by
  simp [totalLost]

namespace LiveLoop

variable {B : Build} {accepts accepts' : List BookEvent → Bool}

/-- The loop after these packets, all that its parser, its sequencer and its totals tell. The
parser is compared with one that started as `start`. -/
structure Follows (accepts' : List BookEvent → Bool) (start : FeedParser B) (s : LiveLoop B)
    (pkts : List (List UInt8)) : Prop where
  seq : s.seq = ({} : MoldSequencer).after pkts
  gaps : s.gaps = (({} : MoldSequencer).feed pkts).countP fun o => o.result.gapCount ≠ 0
  lost : s.lost = totalLost (({} : MoldSequencer).feed pkts) % 2 ^ 64
  parser : s.parser.Alike (((({} : MoldSequencer).delivered pkts).map Prod.fst).foldl (FeedParser.parse accepts') start)

variable {start : FeedParser B} {s : LiveLoop B} {pkts : List (List UInt8)}

theorem Follows.onPacket (follows : s.Follows accepts' start pkts) (accepts : List BookEvent → Bool) (pkt : LivePacket) :
    (s.onPacket accepts pkt).Follows accepts' start (pkts ++ [pkt.data]) := by
  have parser := (follows.parser.setRecvTsc pkt.tsc).foldl accepts accepts'
    ((s.seq.onPacket pkt.data).calls.map fun d => d.message pkt.data)
  have handed : (({} : MoldSequencer).delivered (pkts ++ [pkt.data])).map Prod.fst =
      (({} : MoldSequencer).delivered pkts).map Prod.fst ++ (s.seq.onPacket pkt.data).calls.map fun d => d.message pkt.data := by
    rw [MoldSequencer.delivered_append, List.map_append, follows.seq, List.map_map]
    rfl
  rw [← List.foldl_append, ← handed] at parser
  have gaps := follows.gaps
  have lost := follows.lost
  have after := @MoldSequencer.after_append {} pkts pkt.data
  have feed := @MoldSequencer.feed_append {} pkts pkt.data
  rw [← follows.seq] at after feed
  unfold LiveLoop.onPacket
  by_cases gap : (s.seq.onPacket pkt.data).result.gapCount ≠ 0
  · have more : (s.lost + (s.seq.onPacket pkt.data).result.gapCount) % 2 ^ 64 =
        totalLost (({} : MoldSequencer).feed (pkts ++ [pkt.data])) % 2 ^ 64 := by
      rw [feed, totalLost_snoc, lost, Nat.mod_add_mod]
    have one : s.gaps + 1 = (({} : MoldSequencer).feed (pkts ++ [pkt.data])).countP fun o => o.result.gapCount ≠ 0 := by
      rw [feed, List.countP_append, gaps, List.countP_singleton, if_pos (by simpa using gap)]
    simp only [if_pos gap]
    split <;> exact ⟨after.symm, one, more, parser⟩
  · have none : (s.seq.onPacket pkt.data).result.gapCount = 0 := not_not.mp gap
    have same : s.lost = totalLost (({} : MoldSequencer).feed (pkts ++ [pkt.data])) % 2 ^ 64 := by
      rw [feed, totalLost_snoc, lost, none, Nat.add_zero]
    have zero : s.gaps = (({} : MoldSequencer).feed (pkts ++ [pkt.data])).countP fun o => o.result.gapCount ≠ 0 := by
      rw [feed, List.countP_append, gaps, List.countP_singleton, if_neg (by simpa using none)]
      rfl
    simp only [if_neg gap]
    split <;> exact ⟨after.symm, zero, same, parser⟩

theorem Follows.foldl (follows : s.Follows accepts' start pkts) (accepts : List BookEvent → Bool) (packets : List LivePacket) :
    (packets.foldl (LiveLoop.onPacket accepts) s).Follows accepts' start (pkts ++ packets.map LivePacket.data) := by
  induction packets generalizing s pkts with
  | nil =>
    rw [List.map_nil, List.append_nil]
    exact follows
  | cons pkt packets ih =>
    have rest := ih (follows.onPacket accepts pkt)
    rw [List.append_assoc] at rest
    exact rest

theorem Follows.turn (follows : s.Follows accepts' start pkts) (accepts : List BookEvent → Bool) (poll : LivePoll) :
    (s.turn accepts poll).Follows accepts' start (pkts ++ poll.packets.map LivePacket.data) := by
  have after := follows.foldl accepts poll.packets
  unfold LiveLoop.turn
  split
  · exact ⟨after.seq, after.gaps, after.lost, after.parser⟩
  · exact after

/-- The loop handles the packets of the first polls, of all of them unless it stops. -/
theorem Follows.run (follows : s.Follows accepts' start pkts) (accepts : List BookEvent → Bool) (polls : List LivePoll) :
    ∃ k ≤ polls.length, (k < polls.length → (s.run accepts polls).running = false) ∧
      (s.run accepts polls).Follows accepts' start (pkts ++ ((polls.take k).flatMap LivePoll.packets).map LivePacket.data) := by
  induction polls generalizing s pkts with
  | nil =>
    refine ⟨0, Nat.le_refl _, fun more => absurd more (Nat.lt_irrefl 0), ?_⟩
    show s.Follows accepts' start (pkts ++ [])
    rw [List.append_nil]
    exact follows
  | cons poll polls ih =>
    rw [LiveLoop.run]
    split
    · obtain ⟨k, le, stopped, after⟩ := ih (follows.turn accepts poll)
      refine ⟨k + 1, Nat.succ_le_succ le, fun more => stopped (Nat.lt_of_succ_lt_succ more), ?_⟩
      simpa using after
    · rename_i stopped
      exact ⟨0, Nat.zero_le _, fun _ => by simpa using stopped, by simpa using follows⟩

theorem initial_follows (B : Build) (expectedOrders : Nat) (accepts' : List BookEvent → Bool) :
    (initial B expectedOrders).Follows accepts' (.create B expectedOrders 0) [] where
  seq := rfl
  gaps := rfl
  lost := rfl
  parser := .refl _

end LiveLoop

namespace MoldSession

variable (m : MoldSession)

/-- The message that has a number. -/
def message (q : Nat) : List UInt8 := (m.batches.flatten.getD (q - m.first) []).drop 2

/-- A packet delivers the messages that its numbers stand for. -/
theorem message_packet {k q : Nat} (lower : m.seqAt k ≤ q) (upper : q < m.seqAt (k + 1)) :
    (blockDelivery (m.packet k) (m.seqAt k) q).message (m.packet k) = m.message q := by
  rw [seqAt_succ] at upper
  obtain ⟨j, rfl⟩ := Nat.exists_eq_add_of_le lower
  have here : j < (m.batches.getD k []).length := by omega
  have within : k < m.batches.length := by
    by_contra past
    rw [List.getD_eq_default _ _ (Nat.le_of_not_lt past)] at here
    cases here
  have split : m.batches.flatten =
      (m.batches.take k).flatten ++ (m.batches.getD k [] ++ (m.batches.drop (k + 1)).flatten) := by
    rw [List.getD_eq_getElem _ _ within, ← List.flatten_cons, ← List.drop_eq_getElem_cons within, ← List.flatten_append,
      List.take_append_drop]
  have index : m.seqAt k + j - m.first = (m.batches.take k).flatten.length + j := by
    rw [seqAt]
    omega
  rw [packet, message_moldPacket _ m.ten (m.batch_framed k) here, message, index, split,
    List.getD_append_right _ _ _ _ (Nat.le_add_right ..), Nat.add_sub_cancel_left, List.getD_append _ _ _ _ here,
    List.getD_eq_getElem _ _ here]

/-- A receiver of some packets of the session, from the message `first` on: it was handed the
messages numbered `kept`, and counts the others as lost. -/
structure Received (pkts : List (List UInt8)) (first : Nat) (kept : List Nat) : Prop where
  session : (({} : MoldSequencer).after pkts).next ≠ 0 → (({} : MoldSequencer).after pkts).session = m.session
  started : (({} : MoldSequencer).after pkts).next ≠ 0 → m.first ≤ first
  reached : first ≤ (({} : MoldSequencer).after pkts).next
  bounded : (({} : MoldSequencer).after pkts).next ≤ m.endSeq
  ordered : kept.Sublist (List.range' first ((({} : MoldSequencer).after pkts).next - first))
  counted : kept.length + totalLost (({} : MoldSequencer).feed pkts) = (({} : MoldSequencer).after pkts).next - first
  delivered : ({} : MoldSequencer).delivered pkts = kept.map fun q => (m.message q, q)

theorem received_nil : m.Received [] 0 [] where
  session started := absurd rfl started
  started started := absurd rfl started
  reached := Nat.le_refl 0
  bounded := Nat.zero_le _
  ordered := List.Sublist.refl _
  counted := rfl
  delivered := rfl

variable {m} {pkts : List (List UInt8)} {first : Nat} {kept : List Nat}

/-- The numbers from `next` on that a packet covers, behind the gap in front of it. -/
theorem sublist_range' {first next seq stop : Nat} (reached : first ≤ next)
    (sublist : kept.Sublist (List.range' first (next - first))) :
    (kept ++ List.range' (max next seq) (stop - max next seq)).Sublist (List.range' first (max next stop - first)) := by
  have cut : List.range' first (max next stop - first) =
      List.range' first (next - first) ++ List.range' next (max next stop - next) := by
    have next_eq : next = first + (next - first) := by omega
    have length : max next stop - first = next - first + (max next stop - next) := by omega
    rw [length, ← List.range'_append_1, ← next_eq]
  have tail : (List.range' (max next seq) (stop - max next seq)).Sublist (List.range' next (max next stop - next)) := by
    rcases Nat.lt_or_ge (max next seq) stop with some | none
    · have start : max next seq = next + (max next seq - next) := by omega
      have length : max next stop - next = max next seq - next + (stop - max next seq) := by omega
      rw [length, ← List.range'_append_1, ← start]
      exact List.sublist_append_right ..
    · rw [Nat.sub_eq_zero_of_le none]
      exact List.nil_sublist _
  rw [cut]
  exact sublist.append tail

theorem Received.packet (received : m.Received pkts first kept) (k : Nat) :
    ∃ first' kept', m.Received (pkts ++ [m.packet k]) first' kept' := by
  obtain ⟨session, started, reached, bounded, ordered, counted, delivered⟩ := received
  have outcome := MoldSequencer.onPacket_moldPacket m.ten (m.batch_framed k) (m.batch_small k) (m.batch_bound k)
    (({} : MoldSequencer).after pkts)
  have grows : m.seqAt k ≤ m.seqAt (k + 1) := m.seqAt_mono (Nat.le_succ k)
  have bound := m.seqAt_le_endSeq (k + 1)
  obtain ⟨b, based⟩ : ∃ b, (({} : MoldSequencer).after pkts).baseline ⟨m.session, m.seqAt k, (m.batches.getD k []).length⟩ = b :=
    ⟨_, rfl⟩
  -- A first packet sets the number that the session is counted from.
  obtain ⟨first', own, start, reached, bounded, ordered, counted⟩ : ∃ first', b.session = m.session ∧ m.first ≤ first' ∧
      first' ≤ b.next ∧ b.next ≤ m.endSeq ∧ kept.Sublist (List.range' first' (b.next - first')) ∧
      kept.length + totalLost (({} : MoldSequencer).feed pkts) = b.next - first' := by
    by_cases fresh : (({} : MoldSequencer).after pkts).next = 0
    · rw [fresh] at reached ordered counted
      obtain rfl : kept = [] := List.eq_nil_of_length_eq_zero (by omega)
      rw [MoldSequencer.baseline_fresh fresh] at based
      subst based
      refine ⟨m.seqAt k, rfl, Nat.le_add_right .., Nat.le_refl _, grows.trans bound, List.nil_sublist _, ?_⟩
      rw [Nat.sub_self]
      omega
    · rw [MoldSequencer.baseline_same fresh (session fresh).symm] at based
      subst based
      exact ⟨first, session fresh, started fresh, reached, bounded, ordered, counted⟩
  simp only [based, ← seqAt_succ, ← packet.eq_1] at outcome
  have after := @MoldSequencer.after_append {} pkts (m.packet k)
  have feed := @MoldSequencer.feed_append {} pkts (m.packet k)
  rw [outcome] at after feed
  refine ⟨first', kept ++ List.range' (max b.next (m.seqAt k)) (m.seqAt (k + 1) - max b.next (m.seqAt k)), ?_, ?_, ?_, ?_,
    ?_, ?_, ?_⟩
  · rw [after]
    exact fun _ => own
  · exact fun _ => start
  · rw [after]
    exact reached.trans (Nat.le_max_left ..)
  · rw [after]
    exact Nat.max_le.mpr ⟨bounded, bound⟩
  · rw [after]
    exact sublist_range' reached ordered
  · rw [after, feed, totalLost_snoc, List.length_append, List.length_range']
    dsimp only
    omega
  · rw [MoldSequencer.delivered_append, outcome, delivered, List.map_append, List.map_map]
    refine congrArg _ (List.map_congr_left fun q member => ?_)
    obtain ⟨lower, upper⟩ := List.mem_range'_1.mp member
    exact Prod.ext (m.message_packet (by omega) (by omega)) rfl

theorem Received.endPacket (received : m.Received pkts first kept) : m.Received (pkts ++ [m.endPacket]) first kept := by
  obtain ⟨session, started, reached, bounded, ordered, counted, delivered⟩ := received
  have after := @MoldSequencer.after_append {} pkts m.endPacket
  have feed := @MoldSequencer.feed_append {} pkts m.endPacket
  rw [m.onPacket_endPacket] at after feed
  refine ⟨after ▸ session, after ▸ started, after ▸ reached, after ▸ bounded, after ▸ ordered, ?_, ?_⟩
  · rw [after, feed, totalLost_snoc]
    exact counted
  · rw [MoldSequencer.delivered_append, m.onPacket_endPacket, delivered]
    exact List.append_nil _

/-- Whatever packets of a session come, in whatever order and how often, the messages handed
on are some of its messages, in order and each once, and the others are counted. -/
theorem received (m : MoldSession) (pkts : List (List UInt8))
    (sent : ∀ pkt ∈ pkts, (∃ k < m.batches.length, pkt = m.packet k) ∨ pkt = m.endPacket) :
    ∃ first kept, m.Received pkts first kept := by
  induction pkts using List.reverseRecOn with
  | nil => exact ⟨0, [], m.received_nil⟩
  | append_singleton pkts pkt ih =>
    obtain ⟨first, kept, before⟩ := ih fun p member => sent p (List.mem_append_left _ member)
    rcases sent pkt (List.mem_append_right _ List.mem_cons_self) with ⟨k, -, rfl⟩ | rfl
    · exact before.packet k
    · exact ⟨first, kept, before.endPacket⟩

end MoldSession

/-- What the sender puts on the wire for a file, by the session that it numbers. -/
theorem moldSend_message (name : List UInt8) (mtu : Int) {data : List UInt8} (fits : data.length < 2 ^ 64) :
    ∃ m : MoldSession, m.first = 1 ∧ m.batches.flatten = records data ∧ m.endSeq = (messages data).length + 1 ∧
      (dataPackets (moldSession name) mtu data).length = m.batches.length ∧
      (∀ pkt ∈ moldSend name mtu data, (∃ k < m.batches.length, pkt = m.packet k) ∨ pkt = m.endPacket) ∧
      (∀ i < (moldSend name mtu data).length, (moldSend name mtu data).getD i [] = m.wire i) ∧
      ∀ q, m.message q = (messages data).getD (q - 1) [] := by
  obtain ⟨m, -, first, flatten, -, packets, wire⟩ := moldSend_session name mtu fits
  have texts : (records data).map (List.drop 2) = messages data := (recordsFrom_messages data _ 0).2
  have count : (dataPackets (moldSession name) mtu data).length = m.batches.length := by simp [packets]
  refine ⟨m, first, flatten, ?_, count, ?_, ?_, ?_⟩
  · rw [MoldSession.endSeq, MoldSession.seqAt, List.take_length, first, flatten, ← texts, List.length_map, Nat.add_comm]
  · intro pkt member
    rw [wire, packets] at member
    rcases List.mem_append.mp member with data | last
    · obtain ⟨k, within, rfl⟩ := List.mem_map.mp data
      exact .inl ⟨k, List.mem_range.mp within, rfl⟩
    · exact .inr (List.eq_of_mem_replicate last)
  · intro i bound
    rw [wire, MoldSession.wire]
    split
    · rename_i data
      rw [List.getD_append _ _ _ _ (by omega), packets, List.getD_eq_getElem _ _ (by simpa using data)]
      simp
    · rename_i last
      rw [wire, List.length_append, List.length_replicate] at bound
      rw [List.getD_append_right _ _ _ _ (by omega), List.getD_eq_getElem _ _ (by rw [List.length_replicate]; omega),
        List.getElem_replicate]
  · intro q
    rw [MoldSession.message, first, flatten, ← texts]
    exact (@List.getD_map _ _ (records data) [] (q - 1) (List.drop 2)).symm

namespace LiveLoop

variable {B : Build}

/-- Whatever the network makes of the packets of a file, lost, again, late, in batches of any
size: the live handler ends with the books, counters and events of a replay of the file's
messages that it received, taken in order and each once. It counts the others, from the
first one it received to the last, as lost. -/
theorem live_replays_received (B : Build) (expectedOrders : Nat) (accepts accepts' : List BookEvent → Bool)
    (cfg : ReplayConfig) (name : List UInt8) (mtu : Int) {data : List UInt8} (fits : data.length < 2 ^ 64)
    {polls : List LivePoll} (sent : ∀ poll ∈ polls, ∀ pkt ∈ poll.packets, pkt.data ∈ moldSend name mtu data) :
    let s := (initial B expectedOrders).run accepts polls
    ∃ (first : Nat) (kept : List Nat), kept.Sublist (List.range' first (s.seq.next - first)) ∧ (s.seq.next ≠ 0 → 1 ≤ first) ∧
      first ≤ s.seq.next ∧ s.seq.next ≤ (messages data).length + 1 ∧ kept.length + s.lost = s.seq.next - first ∧
      (s.gaps = 0 ↔ s.lost = 0) ∧
      ∃ r stop, runReplay (BookBuilder.handler (Publisher.sink accepts')) (fun _ => true)
          ((kept.map fun q => (messages data).getD (q - 1) []).flatMap framed) kSlice cfg
          { parser := FeedParser.create B expectedOrders 0 } = some (r, stop) ∧
        s.parser.Alike r.parser := by
  obtain ⟨m, one, -, ends, -, packets, -, texts⟩ := moldSend_message name mtu fits
  obtain ⟨k, -, -, follows⟩ := (initial_follows B expectedOrders accepts').run accepts polls
  rw [List.nil_append] at follows
  generalize handled : ((polls.take k).flatMap LivePoll.packets).map LivePacket.data = pkts at follows
  obtain ⟨first, kept, received⟩ := m.received pkts fun pkt member => by
    obtain ⟨p, some, rfl⟩ := List.mem_map.mp (handled ▸ member)
    obtain ⟨poll, taken, here⟩ := List.mem_flatMap.mp some
    exact packets _ (sent poll (List.mem_of_mem_take taken) p here)
  generalize (initial B expectedOrders).run accepts polls = s at follows ⊢
  have bounded := received.bounded
  have counted := received.counted
  have limit := m.endSeq_lt
  have lost : s.lost = totalLost (({} : MoldSequencer).feed pkts) := by
    rw [follows.lost, Nat.mod_eq_of_lt (by omega)]
  have short : ∀ msg ∈ kept.map fun q => (messages data).getD (q - 1) [], msg.length < 2 ^ 16 := by
    intro msg member
    obtain ⟨q, -, rfl⟩ := List.mem_map.mp member
    rcases Nat.lt_or_ge (q - 1) (messages data).length with inside | past
    · rw [List.getD_eq_getElem _ _ inside]
      exact length_of_messages (List.getElem_mem inside)
    · rw [List.getD_eq_default _ _ past]
      exact Nat.two_pow_pos 16
  obtain ⟨r, stop, replayed, parser⟩ := runReplay_parses (Publisher.sink accepts') cfg
    ((kept.map fun q => (messages data).getD (q - 1) []).flatMap framed) (FeedParser.create B expectedOrders 0)
  refine ⟨first, kept, ?_, ?_, ?_, ?_, ?_, ?_, r, stop, replayed, ?_⟩
  · exact follows.seq ▸ received.ordered
  · rw [follows.seq, ← one]
    exact received.started
  · exact follows.seq ▸ received.reached
  · rw [follows.seq, ← ends]
    exact bounded
  · rw [follows.seq, lost]
    exact counted
  · rw [follows.gaps, lost, totalLost, List.countP_eq_zero, List.sum_eq_zero_iff_forall_eq_nat, List.forall_mem_map]
    simp
  · have handed := follows.parser
    rw [received.delivered, List.map_map] at handed
    rw [parser, messages_written rfl short]
    simp only [Function.comp_def, texts] at handed
    exact handed

/-- The first of two packets never comes. -/
theorem live_replays_received_sample :
    ∃ (first : Nat) (kept : List Nat), kept.length + ((initial ⟨.avx2, 4⟩ 16).run (fun _ => true)
        [{ packets := [⟨(moldSend [65] 23 [0, 1, 83, 0, 0]).getD 1 [], 7⟩] }]).lost =
      ((initial ⟨.avx2, 4⟩ 16).run (fun _ => true)
        [{ packets := [⟨(moldSend [65] 23 [0, 1, 83, 0, 0]).getD 1 [], 7⟩] }]).seq.next - first := by
  obtain ⟨first, kept, -, -, -, -, counted, -⟩ := @live_replays_received ⟨.avx2, 4⟩ 16 (fun _ => true) (fun _ => true) {}
    [65] 23 [0, 1, 83, 0, 0] (by decide) [{ packets := [⟨(moldSend [65] 23 [0, 1, 83, 0, 0]).getD 1 [], 7⟩] }] (by decide)
  exact ⟨first, kept, counted⟩

end LiveLoop

end Itch
