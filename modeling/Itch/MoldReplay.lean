import Itch.MoldBatches

namespace Itch

/-- The messages handed to the callback over a run of packets, with their numbers. -/
def MoldSequencer.delivered (s : MoldSequencer) : List (List UInt8) → List (List UInt8 × Nat)
  | [] => []
  | pkt :: pkts =>
    (s.onPacket pkt).calls.map (fun d => (d.message pkt, d.seq)) ++ (s.onPacket pkt).sequencer.delivered pkts

/-- Every index arrives first in order; copies of earlier ones may come at any place. -/
def FirstArrivalsInOrder (arrivals : List Nat) : Prop :=
  ∀ front i back, arrivals = front ++ i :: back → i ∈ front ∨ ∀ j ∈ front, j < i

theorem MoldSequencer.delivered_append (s : MoldSequencer) (pkts : List (List UInt8)) (pkt : List UInt8) :
    s.delivered (pkts ++ [pkt]) =
      s.delivered pkts ++ ((s.after pkts).onPacket pkt).calls.map fun d => (d.message pkt, d.seq) := by
  induction pkts generalizing s with
  | nil => simp [delivered, after]
  | cons p pkts ih => simp only [List.cons_append, delivered, ih, List.append_assoc]; rfl

/-- Before an index arrives, all smaller ones that ever arrive have arrived. -/
theorem FirstArrivalsInOrder.closed {front : List Nat} {i j : Nat} {back : List Nat}
    (ordered : FirstArrivalsInOrder (front ++ i :: back)) (smaller : j < i) (arrives : j ∈ front ++ i :: back) :
    j ∈ front := by
  rcases List.mem_append.mp arrives with before | after
  · exact before
  · rcases List.mem_cons.mp after with same | later
    · omega
    · obtain ⟨middle, last, split, first⟩ := List.eq_append_cons_of_mem later
      have order := ordered (front ++ i :: middle) j last (by simp [split])
      rcases order with seen | above
      · rcases List.mem_append.mp seen with before | here
        · exact before
        · rcases List.mem_cons.mp here with same | again
          · omega
          · exact absurd again first
      · have wrong := above i (by simp)
        omega

theorem FirstArrivalsInOrder.front {front back : List Nat} (ordered : FirstArrivalsInOrder (front ++ back)) :
    FirstArrivalsInOrder front := by
  intro first i rest split
  exact ordered first i (rest ++ back) (by simp [split])

namespace MoldSession

variable (m : MoldSession)

/-- The data packets of the session in order, then end-of-session packets. -/
def wire (i : Nat) : List UInt8 := if i < m.batches.length then m.packet i else m.endPacket

/-- The receiver after some arrivals, of which `k` data packets are distinct:
they are the first `k`, and exactly their messages have been delivered. -/
structure Replayed (front : List Nat) (k : Nat) : Prop where
  within : k ≤ m.batches.length
  arrived : ∀ i < m.batches.length, i ∈ front ↔ i < k
  next : (({} : MoldSequencer).after (front.map m.wire)).next = if k = 0 then 0 else m.seqAt k
  session : k ≠ 0 → (({} : MoldSequencer).after (front.map m.wire)).session = m.session
  delivered : ({} : MoldSequencer).delivered (front.map m.wire) =
    ((m.batches.take k).flatten.map (List.drop 2)).zipIdx m.first
  clean : ∀ o ∈ ({} : MoldSequencer).feed (front.map m.wire), o.result.gapCount = 0 ∧ o.result.malformed = false

/-- The deliveries of one whole packet are its messages, numbered. -/
theorem deliveries_packet (k : Nat) :
    ((List.range' (m.seqAt k) (m.batches.getD k []).length).map (blockDelivery (m.packet k) (m.seqAt k))).map
        (fun d => (d.message (m.packet k), d.seq)) =
      ((m.batches.getD k []).map (List.drop 2)).zipIdx (m.seqAt k) := by
  apply List.ext_getElem (by simp)
  intro j left right
  have within : j < (m.batches.getD k []).length := by simpa using left
  have message := @message_moldPacket _ (m.seqAt k) _ (m.batches.getD k []).length m.ten (m.batch_framed k) _ within
  simp only [List.getElem_map, List.getElem_range', Nat.one_mul, List.getElem_zipIdx]
  exact Prod.ext message rfl

variable {m}

theorem Replayed.new {front : List Nat} {k : Nat} (replayed : m.Replayed front k) (more : k < m.batches.length) :
    m.Replayed (front ++ [k]) (k + 1) := by
  have outcome := MoldSequencer.onPacket_moldPacket m.ten (m.batch_framed k) (m.batch_small k) (m.batch_bound k)
    (({} : MoldSequencer).after (front.map m.wire))
  have grows := m.seqAt_mono (Nat.le_succ k)
  have positive := m.seqAt_pos k
  have based : (({} : MoldSequencer).after (front.map m.wire)).baseline
      ⟨m.session, m.seqAt k, (m.batches.getD k []).length⟩ = ⟨m.session, m.seqAt k⟩ := by
    have next := replayed.next
    by_cases fresh : k = 0
    · rw [if_pos fresh] at next
      exact MoldSequencer.baseline_fresh next _
    · have session := replayed.session fresh
      rw [if_neg fresh] at next
      rw [MoldSequencer.baseline_same (by omega) session.symm, ← session, ← next]
  have here : m.wire k = m.packet k := if_pos more
  simp only [based, max_self, ← seqAt_succ, ← packet.eq_1, Nat.sub_self] at outcome
  have count : m.seqAt (k + 1) - m.seqAt k = (m.batches.getD k []).length := by rw [seqAt_succ]; omega
  refine ⟨more, ?_, ?_, ?_, ?_, ?_⟩
  · intro i bound
    rw [List.mem_append, replayed.arrived i bound, List.mem_singleton]
    omega
  · rw [List.map_append, List.map_singleton, MoldSequencer.after_append, here, outcome]
    simpa using grows
  · intro _
    rw [List.map_append, List.map_singleton, MoldSequencer.after_append, here, outcome]
  · have first : m.seqAt k = m.first + ((m.batches.take k).flatten.map (List.drop 2)).length := by
      rw [seqAt, List.length_map]
    rw [List.map_append, List.map_singleton, MoldSequencer.delivered_append, here, outcome, replayed.delivered, count,
      deliveries_packet, List.take_succ_eq_append_getElem more, List.flatten_append, List.map_append,
      List.zipIdx_append, List.flatten_singleton, ← first, List.getD_eq_getElem _ _ more]
  · intro o member
    rw [List.map_append, List.map_singleton, MoldSequencer.feed_append, here, outcome] at member
    rcases List.mem_append.mp member with old | new
    · exact replayed.clean o old
    · rw [List.mem_singleton.mp new]
      exact ⟨rfl, rfl⟩

/-- A packet that changes nothing and delivers nothing leaves the receiver as it is. -/
theorem Replayed.silent {front : List Nat} {k i : Nat} (replayed : m.Replayed front k)
    (old : i < m.batches.length → i < k)
    (same : ((({} : MoldSequencer).after (front.map m.wire)).onPacket (m.wire i)).sequencer =
      ({} : MoldSequencer).after (front.map m.wire))
    (calls : ((({} : MoldSequencer).after (front.map m.wire)).onPacket (m.wire i)).calls = [])
    (clean : ((({} : MoldSequencer).after (front.map m.wire)).onPacket (m.wire i)).result.gapCount = 0 ∧
      ((({} : MoldSequencer).after (front.map m.wire)).onPacket (m.wire i)).result.malformed = false) :
    m.Replayed (front ++ [i]) k := by
  refine ⟨replayed.within, ?_, ?_, ?_, ?_, ?_⟩
  · intro j bound
    rw [List.mem_append, replayed.arrived j bound, List.mem_singleton]
    constructor
    · rintro (before | rfl)
      · exact before
      · exact old bound
    · exact Or.inl
  · rw [List.map_append, List.map_singleton, MoldSequencer.after_append, same, replayed.next]
  · rw [List.map_append, List.map_singleton, MoldSequencer.after_append, same]
    exact replayed.session
  · rw [List.map_append, List.map_singleton, MoldSequencer.delivered_append, calls, replayed.delivered]
    simp
  · intro o member
    rw [List.map_append, List.map_singleton, MoldSequencer.feed_append] at member
    rcases List.mem_append.mp member with before | new
    · exact replayed.clean o before
    · rw [List.mem_singleton.mp new]
      exact clean

theorem Replayed.copy {front : List Nat} {k i : Nat} (replayed : m.Replayed front k) (seen : i < k) :
    m.Replayed (front ++ [i]) k := by
  have within := replayed.within
  have outcome := MoldSequencer.onPacket_moldPacket m.ten (m.batch_framed i) (m.batch_small i) (m.batch_bound i)
    (({} : MoldSequencer).after (front.map m.wire))
  have next := replayed.next
  have session := replayed.session (by omega)
  rw [if_neg (by omega)] at next
  have positive := m.seqAt_pos k
  have behind : m.seqAt (i + 1) ≤ m.seqAt k := m.seqAt_mono seen
  have ahead : m.seqAt i ≤ m.seqAt k := m.seqAt_mono seen.le
  have based : (({} : MoldSequencer).after (front.map m.wire)).baseline
      ⟨m.session, m.seqAt i, (m.batches.getD i []).length⟩ = ({} : MoldSequencer).after (front.map m.wire) :=
    MoldSequencer.baseline_same (by omega) session.symm
  have here : m.wire i = m.packet i := if_pos (by omega)
  have none : m.seqAt (i + 1) - m.seqAt k = 0 := by omega
  simp only [based, next, ← seqAt_succ, ← packet.eq_1, max_eq_left ahead, max_eq_left behind, none] at outcome
  apply replayed.silent (fun _ => seen) <;> rw [here, outcome]
  · rw [← next]
  · rfl
  · exact ⟨Nat.sub_eq_zero_of_le ahead, rfl⟩

theorem Replayed.finish {front : List Nat} {k i : Nat} (replayed : m.Replayed front k)
    (last : m.batches.length ≤ i) : m.Replayed (front ++ [i]) k := by
  have here : m.wire i = m.endPacket := if_neg (by omega)
  apply replayed.silent (fun bound => absurd bound (by omega)) <;> rw [here, m.onPacket_endPacket]
  exact ⟨rfl, rfl⟩

/-- Any arrivals with the first ones in order leave the receiver with the
messages of the first packets. -/
theorem replayed_of_arrivals {front back : List Nat} (ordered : FirstArrivalsInOrder (front ++ back))
    (all : ∀ i < m.batches.length, i ∈ front ++ back) : ∃ k, m.Replayed front k := by
  induction front using List.reverseRecOn generalizing back with
  | nil => exact ⟨0, by simp, by simp, rfl, by simp, rfl, by simp [MoldSequencer.feed]⟩
  | append_singleton front i ih =>
    rw [List.append_assoc, List.singleton_append] at ordered all
    obtain ⟨k, replayed⟩ := ih ordered all
    by_cases data : i < m.batches.length
    · have reached : i ≤ k := by
        by_contra beyond
        have missing := ordered.closed (show k < i by omega) (all k (by omega))
        exact absurd ((replayed.arrived k (by omega)).mp missing) (Nat.lt_irrefl k)
      rcases reached.lt_or_eq with seen | rfl
      · exact ⟨k, replayed.copy seen⟩
      · exact ⟨i + 1, replayed.new data⟩
    · exact ⟨k, replayed.finish (Nat.le_of_not_lt data)⟩

end MoldSession

theorem firstArrivalsInOrder_nil : FirstArrivalsInOrder [] := by
  intro front i back split
  simp at split

theorem FirstArrivalsInOrder.snoc {arrivals : List Nat} (ordered : FirstArrivalsInOrder arrivals) {i : Nat}
    (next : i ∈ arrivals ∨ ∀ j ∈ arrivals, j < i) : FirstArrivalsInOrder (arrivals ++ [i]) := by
  intro front j back split
  rcases List.eq_nil_or_concat back with rfl | ⟨middle, last, rfl⟩
  · obtain ⟨rfl, same⟩ := List.append_inj' split rfl
    cases same
    exact next
  · rw [List.concat_eq_append, ← List.cons_append, ← List.append_assoc] at split
    exact ordered front j middle (List.append_inj' split rfl).1

/-- The live path hands the parser what the file path does. For packets of a
file sent with any packet size, and any arrivals in which every data packet
comes and first arrivals are in order, no packet shows a gap or is malformed,
and the callback gets the file's records in order, numbered from 1. -/
theorem moldSend_replays_file (name : List UInt8) (mtu : Int) {data : List UInt8} (fits : data.length < 2 ^ 64)
    {arrivals : List Nat} (sent : ∀ i ∈ arrivals, i < (moldSend name mtu data).length)
    (all : ∀ i < (dataPackets (moldSession name) mtu data).length, i ∈ arrivals)
    (ordered : FirstArrivalsInOrder arrivals) :
    let pkts := arrivals.map fun i => (moldSend name mtu data).getD i []
    (∀ o ∈ ({} : MoldSequencer).feed pkts, o.result.gapCount = 0 ∧ o.result.malformed = false) ∧
      ({} : MoldSequencer).delivered pkts = (messages data).zipIdx 1 ∧
      (∀ (σ : Type) (parse : σ → List UInt8 → σ) (s : σ),
        (({} : MoldSequencer).delivered pkts).foldl (fun s message => parse s message.1) s =
          (parseStream parse data s).1) ∧
      ∀ pkt ∈ dataPackets (moldSession name) mtu data, ∃ h, parseMoldHeader pkt = some h ∧
        h.count ≠ kMoldHeartbeat ∧ h.count ≠ kMoldEndOfSession := by
  obtain ⟨m, _, first, flatten, nonempty, packets, wire⟩ := moldSend_session name mtu fits
  have count : (dataPackets (moldSession name) mtu data).length = m.batches.length := by simp [packets]
  have onWire : (arrivals.map fun i => (moldSend name mtu data).getD i []) = arrivals.map m.wire := by
    apply List.map_congr_left
    intro i member
    have bound := sent i member
    rw [wire, MoldSession.wire]
    split
    · rename_i data
      rw [List.getD_append _ _ _ _ (by omega), packets, List.getD_eq_getElem _ _ (by simpa using data)]
      simp
    · rename_i last
      rw [wire, List.length_append, List.length_replicate] at bound
      rw [List.getD_append_right _ _ _ _ (by omega), List.getD_eq_getElem _ _ (by rw [List.length_replicate]; omega),
        List.getElem_replicate]
  obtain ⟨k, replayed⟩ := @MoldSession.replayed_of_arrivals m arrivals [] (by simpa using ordered)
    (by simpa [count] using all)
  have complete : k = m.batches.length := by
    have within := replayed.within
    by_contra short
    have arrived := (replayed.arrived k (by omega)).mp (all k (by omega))
    omega
  have delivered : ({} : MoldSequencer).delivered (arrivals.map m.wire) = (messages data).zipIdx 1 := by
    rw [replayed.delivered, complete, List.take_length, flatten, first, records, (recordsFrom_messages data _ 0).2]
    rfl
  simp only [onWire]
  refine ⟨replayed.clean, delivered, ?_, ?_⟩
  · intro σ parse s
    rw [delivered, parseStream_eq, ← List.foldl_map, List.zipIdx_map_fst]
  · intro pkt member
    rw [packets] at member
    obtain ⟨i, range, rfl⟩ := List.mem_map.mp member
    have within := List.mem_range.mp range
    refine ⟨_, m.packet_header i, ?_, (m.batch_small i).ne⟩
    rw [List.getD_eq_getElem _ _ within]
    simpa [kMoldHeartbeat] using nonempty _ (List.getElem_mem within)

/-- Two records in two packets, the first of which arrives twice. -/
theorem moldSend_replays_file_sample :
    ({} : MoldSequencer).delivered
        ([0, 0, 1, 2].map fun i => (moldSend [65] 23 [0, 1, 83, 0, 0]).getD i []) =
      (messages [0, 1, 83, 0, 0]).zipIdx 1 :=
  (moldSend_replays_file [65] 23 (by decide) (by decide) (by decide)
    ((((firstArrivalsInOrder_nil.snoc (i := 0) (by simp)).snoc (i := 0) (by simp)).snoc (i := 1) (by simp)).snoc
      (i := 2) (by simp))).2.1

end Itch
