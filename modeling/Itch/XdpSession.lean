import Itch.LiveReplay
import Itch.XdpReceiverInvariant

namespace Itch

/-- The payload of a frame, if it is a datagram. -/
def udpPayload (frame : List UInt8) : Option (List UInt8) := (parseUdpFrame frame).toOption.map UdpDatagram.payload

namespace XdpReceiver

/-- The bytes of the frame of a descriptor. -/
def frame (x : Libxdp) (s : XdpReceiver) (d : XdpDesc) : List UInt8 := s.bytes (x.addOffsetToAddr d.addr) d.len

/-- What `packet(i)` points at. -/
def payload (s : XdpReceiver) (i : Nat) : List UInt8 := s.bytes (s.packets i).data (s.packets i).len

end XdpReceiver

/-- The feed thread on AF_XDP: the receiver, and the loop that has handled `next` of the packets
of its last poll. `published` is history: each frame that the kernel published, as it was then. -/
structure XdpSession (B : Build) where
  rx : XdpReceiver
  loop : LiveLoop B
  next : Nat := 0
  published : List (List UInt8) := []

inductive SessionTurn where
  | kernel
  | poll
  | packet
  | signal

section Session

variable {B : Build} (u : Umem) (x : Libxdp) (accepts : List BookEvent → Bool)

namespace XdpSession

/-- The next packet of the last poll, with the TSC of the poll. -/
def onPacket (s : XdpSession B) : XdpSession B :=
  { s with
    loop := s.loop.onPacket accepts ⟨s.rx.payload s.next, UInt64.ofNat (s.rx.packets s.next).rxTsc⟩
    next := s.next + 1 }

/-- The feed thread before its first poll. -/
def opened (B : Build) (expectedOrders : Nat) (mem : Nat → UInt8) : XdpSession B where
  rx := .opened u mem
  loop := .initial B expectedOrders

end XdpSession

/-- A step of the kernel, which publishes only frames that the filter redirects, or of the feed
thread: of a poll, of the loop over its packets, or the end of the loop by a signal. -/
inductive SessionStep (redirects : List UInt8 → Prop) : XdpSession B → SessionTurn → XdpSession B → Prop
  | kernel {s : XdpSession B} {t : XdpReceiver} (step : XdpStep u x s.rx .kernel t)
      (filtered : ∀ frame ∈ (t.rx.drop s.rx.rx.length).map (t.frame x), redirects frame) :
      SessionStep redirects s .kernel
        { s with rx := t, published := s.published ++ (t.rx.drop s.rx.rx.length).map (t.frame x) }
  | poll {s : XdpSession B} {t : XdpReceiver} (step : XdpStep u x s.rx .program t)
      (handled : s.rx.phase = .idle → s.next = s.rx.result ∧ s.loop.running = true) :
      SessionStep redirects s .poll { s with rx := t, next := 0 }
  | packet {s : XdpSession B} (idle : s.rx.phase = .idle) (more : s.next < s.rx.result) :
      SessionStep redirects s .packet (s.onPacket accepts)
  | signal {s : XdpSession B} : SessionStep redirects s .signal { s with loop := { s.loop with running := false } }

end Session

/-! What the parser makes of the bytes of a frame. -/
section Payload

variable {base : Nat} {frame : List UInt8}

theorem udpPayload_none (refused : ((parseUdpFrameReads base frame.length {}).value frame).1 ≠ none) : udpPayload frame = none := by
  rw [value_parseUdpFrame] at refused
  rw [udpPayload, parseUdpFrame]
  cases ethernet : ethernetPayload frame with
  | error e => rfl
  | ok off =>
    rw [ethernet] at refused
    show Option.map UdpDatagram.payload (parseIpv4 frame off).toOption = none
    cases ip : parseIpv4 frame off with
    | error e => rfl
    | ok d =>
      rw [frameResult, ip] at refused
      exact absurd rfl refused

theorem udpPayload_some (accepted : ((parseUdpFrameReads base frame.length {}).value frame).1 = none) :
    ∃ f : UdpFrame, f.bytes = frame ∧ ((parseUdpFrameReads base frame.length {}).value frame).2 = f.view base ∧
      udpPayload frame = some f.data := by
  obtain ⟨f, rfl⟩ := (parseUdpFrame_ok_iff base {} frame).mp accepted
  refine ⟨f, rfl, congrArg Prod.snd (f.value_bytes base {}), ?_⟩
  rw [udpPayload, parseUdpFrame, f.ethernetPayload_bytes]
  show Option.map UdpDatagram.payload (Except.toOption (parseIpv4 f.bytes f.ethernet.length)) = some f.data
  rw [f.parseIpv4_bytes]
  rfl

end Payload

namespace XdpReceiver

variable {u : Umem} {x : Libxdp} {s t : XdpReceiver}

theorem bytes_length (addr len : Nat) : (s.bytes addr len).length = len := by
  rw [bytes, List.length_map, List.length_range]

/-- A part of the bytes at an address. -/
theorem slice_bytes (addr : Nat) {len k width : Nat} (inside : k + width ≤ len) :
    slice (s.bytes addr len) k width = s.bytes (addr + k) width := by
  rw [slice, bytes, bytes]
  refine List.ext_getElem (by simp; omega) fun i short short' => ?_
  simp [Nat.add_assoc]

/-- The kernel does not write to a frame in the rx ring. -/
theorem Owned.frame_kept (owned : s.Owned u x) {d : XdpDesc} (member : d ∈ s.rx) (step : XdpStep u x s .kernel t) :
    t.frame x d = s.frame x d := by
  cases step with
  | take next => rfl
  | publish has of => rfl
  | @write c mem has elsewhere =>
    obtain ⟨-, start, stop⟩ := owned.inside d member
    refine List.map_congr_left fun k inside => elsewhere _ fun there => ?_
    have short := List.mem_range.mp inside
    have here : u.chunk (x.addOffsetToAddr d.addr + k) = u.chunk (x.extractAddr d.addr) := by
      refine Nat.div_eq_of_lt_le (start.trans (Nat.le_add_right ..)) ?_
      exact (Nat.add_lt_add_left short _).trans_le stop
    -- a chunk that is in the rx ring is not with the kernel
    have once := owned.once c
    have held : 0 < s.kernel.count c := List.count_pos_iff.mpr has
    have queued : 0 < (s.rx.map fun d => u.chunk (x.extractAddr d.addr)).count c :=
      List.count_pos_iff.mpr (List.mem_map.mpr ⟨d, member, here.symm.trans there⟩)
    rw [places] at once
    split at once <;> omega

theorem rx_kernel (step : XdpStep u x s .kernel t) : t.rx = s.rx ++ t.rx.drop s.rx.length := by
  cases step <;> simp

/-- The packets of the batch that are still to be handled, `next` of which were. -/
def unhandled (s : XdpReceiver) (next : Nat) : List (List UInt8) :=
  match s.phase with
  | .idle => (List.range' next (s.result - next)).map s.payload
  | .filling _ => []
  | .peeking => []
  | .receiving _ _ out _ => (List.range out).map s.payload

/-- The kernel does not write to the packets of a batch. -/
theorem Owned.unhandled_kept (owned : s.Owned u x) (next : Nat) (step : XdpStep u x s .kernel t) :
    t.unhandled next = s.unhandled next := by
  obtain ⟨-, pending, packets, phase, result⟩ := sameProgram_kernel step
  have kept : ∀ i, s.Exposed u i → t.payload i = s.payload i := by
    intro i exposed
    have same := owned.payload_kept exposed step
    rw [payload, packets]
    exact same
  have batch := owned.batch
  unfold unhandled
  rw [phase, result]
  cases here : s.phase with
  | idle =>
    rw [Batch, here] at batch
    refine List.map_congr_left fun i member => kept i (batch.2 i ?_)
    have := List.mem_range'_1.mp member
    omega
  | filling i => rfl
  | peeking => rfl
  | receiving rcvd i out now =>
    rw [Batch, here] at batch
    exact List.map_congr_left fun i member => kept i (batch.2.2.2.2 i (List.mem_range.mp member))

/-- What one turn over the batch makes of a frame: its payload joins the batch if it has one. -/
theorem receive_unhandled {rcvd i out now : Nat} {d : XdpDesc} {rx : List XdpDesc} (phase : s.phase = .receiving rcvd i out now)
    (next : Nat) : (s.receive x rcvd i out now d rx).unhandled next = s.unhandled next ++ (udpPayload (s.frame x d)).toList := by
  have batch : s.unhandled next = (List.range out).map s.payload := by
    rw [unhandled, phase]
  have length : (s.frame x d).length = d.len := bytes_length ..
  rw [batch, receive]
  dsimp only
  split <;> rename_i refused
  · have none := @udpPayload_none (x.addOffsetToAddr d.addr) (s.frame x d) (by rw [length]; exact refused)
    rw [none, Option.toList_none, List.append_nil]
    rfl
  · obtain ⟨f, bytes, view, data⟩ := @udpPayload_some (x.addOffsetToAddr d.addr) (s.frame x d)
      (by rw [length]; exact not_not.mp refused)
    rw [length] at view
    change ((parseUdpFrameReads (x.addOffsetToAddr d.addr) d.len {}).value (s.bytes (x.addOffsetToAddr d.addr) d.len)).2 = _ at view
    rw [data, view, unhandled]
    dsimp only
    rw [List.range_succ, List.map_append, Option.toList_some]
    congr 1
    · refine List.map_congr_left fun j member => ?_
      rw [payload, payload]
      dsimp only
      rw [Function.update_of_ne (Nat.ne_of_lt (List.mem_range.mp member))]
      rfl
    · rw [List.map_singleton, payload]
      dsimp only
      rw [Function.update_self]
      -- the payload lies in the frame, where the grammar has the data
      have inside : f.ethernet.length + f.ihl * 4 + kUdp + f.data.length ≤ d.len := by
        have last := f.ipEnd_le
        rw [bytes, length] at last
        refine le_trans ?_ last
        rw [UdpFrame.ipEnd, UdpFrame.ipTotal, UdpFrame.udpLen]
        omega
      have part := @slice_bytes s (x.addOffsetToAddr d.addr) d.len (f.ethernet.length + f.ihl * 4 + kUdp) f.data.length inside
      change slice (s.frame x d) _ _ = _ at part
      rw [← bytes, f.slice_data] at part
      exact congrArg (fun data => [data]) part.symm

end XdpReceiver

namespace XdpSession

open XdpReceiver

variable {B : Build} {u : Umem} {x : Libxdp} {accepts accepts' : List BookEvent → Bool} {expectedOrders : Nat} {s t : XdpSession B}

/-- The loop after these packets, which are the payloads of the first frames that were published
but for those still in the batch. The other frames wait in the rx ring as they were published. -/
structure Sound (u : Umem) (x : Libxdp) (accepts' : List BookEvent → Bool) (expectedOrders : Nat) (s : XdpSession B)
    (handled : List (List UInt8)) (k : Nat) : Prop where
  owned : s.rx.Owned u x
  next : s.rx.phase ≠ .idle → s.next = 0
  few : k ≤ s.published.length
  waiting : s.published.drop k = s.rx.rx.map (s.rx.frame x)
  received : handled ++ s.rx.unhandled s.next = (s.published.take k).filterMap udpPayload
  loop : s.loop.Follows accepts' (.create B expectedOrders 0) handled

theorem opened_sound (mem : Nat → UInt8) : (opened u B expectedOrders mem).Sound u x accepts' expectedOrders [] 0 where
  owned := owned_opened mem
  next _ := rfl
  few := Nat.le_refl 0
  waiting := rfl
  received := rfl
  loop := LiveLoop.initial_follows B expectedOrders accepts'

variable {handled : List (List UInt8)} {k : Nat}

theorem Sound.kernel {t : XdpReceiver} (sound : s.Sound u x accepts' expectedOrders handled k) (step : XdpStep u x s.rx .kernel t) :
    Sound u x accepts' expectedOrders
      { s with rx := t, published := s.published ++ (t.rx.drop s.rx.rx.length).map (t.frame x) } handled k := by
  obtain ⟨owned, next, few, waiting, received, loop⟩ := sound
  have same := sameProgram_kernel step
  refine ⟨owned_step owned step, fun busy => next ?_, few.trans ?_, ?_, ?_, loop⟩
  · rw [← same.phase]
    exact busy
  · rw [List.length_append]
    exact Nat.le_add_right ..
  · dsimp only
    rw [List.drop_append_of_le_length few, waiting]
    nth_rewrite 2 [rx_kernel step]
    rw [List.map_append]
    exact congrArg (· ++ _) (List.map_congr_left fun d member => (owned.frame_kept member step).symm)
  · dsimp only
    rw [owned.unhandled_kept s.next step, List.take_append_of_le_length few]
    exact received

theorem Sound.poll {t : XdpReceiver} (sound : s.Sound u x accepts' expectedOrders handled k) (step : XdpStep u x s.rx .program t)
    (done : s.rx.phase = .idle → s.next = s.rx.result) :
    ∃ k', Sound u x accepts' expectedOrders { s with rx := t, next := 0 } handled k' := by
  obtain ⟨owned, next, few, waiting, received, loop⟩ := sound
  have owned' := owned_step owned step
  -- steps that leave the rx ring alone, with nothing left of the batch or all of it
  have calm : t.rx = s.rx.rx → t.mem = s.rx.mem → t.unhandled 0 = s.rx.unhandled s.next →
      ∃ k', Sound u x accepts' expectedOrders { s with rx := t, next := 0 } handled k' := by
    intro rx mem unhandled
    refine ⟨k, owned', fun _ => rfl, few, ?_, ?_, loop⟩
    · dsimp only
      rw [waiting, rx]
      refine List.map_congr_left fun d member => ?_
      rw [frame, frame, bytes, bytes, mem]
    · exact (congrArg (_ ++ ·) unhandled).trans received
  cases step with
  | reserve granted phase grant =>
    have none : s.rx.unhandled s.next = [] := by
      rw [unhandled, phase, done phase, Nat.sub_self]
      rfl
    refine calm ?_ ?_ (none.symm ▸ ?_) <;> unfold reserve <;> split <;> (try split) <;> rfl
  | fillAddr phase more =>
    refine calm rfl rfl ?_
    rw [unhandled, unhandled, phase]
    rfl
  | submit phase =>
    refine calm rfl rfl ?_
    rw [unhandled, unhandled, phase]
    rfl
  | peek rcvd now phase batch ready =>
    have none : s.rx.unhandled s.next = [] := by
      rw [unhandled, phase]
    refine calm ?_ ?_ (none.symm ▸ ?_) <;> unfold peek <;> split <;> rfl
  | @release rcvd out now phase =>
    have start := next (by rw [phase]; intro same; cases same)
    refine calm rfl rfl ?_
    rw [unhandled, unhandled, phase, start, release]
    dsimp only
    rw [Nat.sub_zero, List.range_eq_range']
    rfl
  | @receive rcvd i out now d rx phase more ring =>
    have start := next (by rw [phase]; intro same; cases same)
    rw [ring, List.map_cons] at waiting
    have inside : k < s.published.length := by
      by_contra past
      rw [List.drop_of_length_le (Nat.not_lt.mp past)] at waiting
      cases waiting
    rw [List.drop_eq_getElem_cons inside, List.cons.injEq] at waiting
    refine ⟨k + 1, owned', fun _ => rfl, inside, ?_, ?_, loop⟩
    · have kept : (s.rx.receive x rcvd i out now d rx).rx = rx ∧ (s.rx.receive x rcvd i out now d rx).mem = s.rx.mem := by
        unfold receive
        dsimp only
        split <;> exact ⟨rfl, rfl⟩
      dsimp only
      rw [waiting.2, kept.1]
      refine List.map_congr_left fun d member => ?_
      rw [frame, frame, bytes, bytes, kept.2]
    · have one : [s.published[k]].filterMap udpPayload = (udpPayload (s.rx.frame x d)).toList := by
        rw [waiting.1]
        cases found : udpPayload (s.rx.frame x d) <;> simp [found]
      dsimp only
      rw [receive_unhandled phase, ← List.append_assoc, List.take_succ_eq_append_getElem inside, List.filterMap_append,
        ← received, start, one]

theorem Sound.packet (sound : s.Sound u x accepts' expectedOrders handled k) (idle : s.rx.phase = .idle)
    (more : s.next < s.rx.result) :
    (s.onPacket accepts).Sound u x accepts' expectedOrders (handled ++ [s.rx.payload s.next]) k := by
  obtain ⟨owned, next, few, waiting, received, loop⟩ := sound
  refine ⟨owned, fun busy => absurd idle busy, few, waiting, ?_, loop.onPacket accepts _⟩
  have rest : s.rx.unhandled s.next = s.rx.payload s.next :: s.rx.unhandled (s.next + 1) := by
    rw [unhandled, idle, unhandled, idle]
    dsimp only
    rw [show s.rx.result - s.next = (s.rx.result - (s.next + 1)) + 1 by omega, List.range'_succ]
    rfl
  rw [rest] at received
  rw [List.append_assoc]
  exact received

theorem Sound.signal (sound : s.Sound u x accepts' expectedOrders handled k) :
    Sound u x accepts' expectedOrders { s with loop := { s.loop with running := false } } handled k := by
  obtain ⟨owned, next, few, waiting, received, seq, gaps, lost, parser⟩ := sound
  exact ⟨owned, next, few, waiting, received, seq, gaps, lost, parser⟩

/-- The filter of a receiver opened for these options, on its queue. -/
def Redirects (o : ByteOrder) (opt : XdpOptions) (xsksMap : UInt32 → Option UInt32) (queue : UInt32) (frame : List UInt8) : Prop :=
  xdpUdpFilter o (some (opt.cfg o)) xsksMap ⟨frame, queue⟩ = .redirect

theorem Redirects.datagram {o : ByteOrder} {opt : XdpOptions} {xsksMap : UInt32 → Option UInt32} {queue : UInt32}
    {frame data : List UInt8} (redirects : Redirects o opt xsksMap queue frame) (payload : udpPayload frame = some data) :
    ∃ d, parseUdpFrame frame = .ok d ∧ opt.Accepts d ∧ d.payload = data := by
  obtain ⟨⟨ip, ethernet, feed⟩, -⟩ := (xdpUdpFilter_iff o).mp redirects
  dsimp only at ethernet feed
  have parsed : parseUdpFrame frame = parseIpv4 frame ip := by
    rw [parseUdpFrame, ethernet]
    rfl
  rw [udpPayload, parsed] at payload
  rw [parsed]
  rcases parse_feedHeaders feed with ⟨d, ok, accepts⟩ | refused | refused | refused
  · rw [ok] at payload ⊢
    exact ⟨d, rfl, accepts, Option.some.inj payload⟩
  · rw [refused] at payload
    cases payload
  · rw [refused] at payload
    cases payload
  · rw [refused] at payload
    cases payload

theorem step_published {redirects : List UInt8 → Prop} {s t : XdpSession B} {e : SessionTurn} (step : SessionStep u x accepts redirects s e t)
    (before : ∀ frame ∈ s.published, redirects frame) : ∀ frame ∈ t.published, redirects frame := by
  cases step with
  | kernel step filtered => exact List.forall_mem_append.mpr ⟨before, filtered⟩
  | poll step handled => exact before
  | packet idle more => exact before
  | signal => exact before

theorem sound_reachable {redirects : List UInt8 → Prop} {mem : Nat → UInt8}
    (reach : Reachable (opened u B expectedOrders mem) (SessionStep u x accepts redirects) s) :
    ∃ handled k, s.Sound u x accepts' expectedOrders handled k := by
  refine reach.invariant (fun s : XdpSession B => ∃ handled k, s.Sound u x accepts' expectedOrders handled k) ⟨[], 0, opened_sound mem⟩ ?_
  rintro s e t ⟨handled, k, sound⟩ step
  cases step with
  | kernel step filtered => exact ⟨handled, k, sound.kernel step⟩
  | poll step done =>
    obtain ⟨k', sound⟩ := sound.poll step fun idle => (done idle).1
    exact ⟨handled, k', sound⟩
  | packet idle more => exact ⟨_, k, sound.packet idle more⟩
  | signal => exact ⟨handled, k, sound.signal⟩

/-- In every run of the kernel and the feed thread the loop handles the payloads of the frames
that were received, each once, in the order of their publication and as they were then; all of
them once it polls again. They are datagrams of the feed, and the state is that of a parser
given the messages that a sequencer delivers from them. -/
theorem handles_published (u : Umem) (x : Libxdp) (accepts accepts' : List BookEvent → Bool) (expectedOrders : Nat)
    (mem : Nat → UInt8) (o : ByteOrder) (opt : XdpOptions) (xsksMap : UInt32 → Option UInt32) (queue : UInt32) {s : XdpSession B}
    (reach : Reachable (opened u B expectedOrders mem) (SessionStep u x accepts (Redirects o opt xsksMap queue)) s) :
    ∃ handled k, s.published.length = k + s.rx.rx.length ∧
      handled <+: (s.published.take k).filterMap udpPayload ∧
      (s.rx.phase = .idle → s.next = s.rx.result → handled = (s.published.take k).filterMap udpPayload) ∧
      (∀ data ∈ handled, ∃ frame ∈ s.published, ∃ d, parseUdpFrame frame = .ok d ∧ opt.Accepts d ∧ d.payload = data) ∧
      s.loop.seq = ({} : MoldSequencer).after handled ∧
      s.loop.parser.Alike (((({} : MoldSequencer).delivered handled).map Prod.fst).foldl (FeedParser.parse accepts')
        (.create B expectedOrders 0)) := by
  obtain ⟨handled, k, sound⟩ := @sound_reachable _ _ _ accepts accepts' _ _ _ _ reach
  have redirected := reach.invariant (fun s : XdpSession B => ∀ frame ∈ s.published, Redirects o opt xsksMap queue frame)
    (fun _ member => by cases member) fun _ _ _ before step => step_published step before
  have front : handled <+: (s.published.take k).filterMap udpPayload := ⟨_, sound.received⟩
  refine ⟨handled, k, ?_, front, ?_, ?_, sound.loop.seq, sound.loop.parser⟩
  · have waiting := congrArg List.length sound.waiting
    rw [List.length_drop, List.length_map] at waiting
    have := sound.few
    omega
  · intro idle done
    have received := sound.received
    rw [unhandled, idle, done] at received
    dsimp only at received
    rw [Nat.sub_self] at received
    exact (List.append_nil _).symm.trans received
  · intro data member
    obtain ⟨frame, taken, payload⟩ := List.mem_filterMap.mp (front.subset member)
    have inside := List.mem_of_mem_take taken
    exact ⟨frame, inside, Redirects.datagram (redirected frame inside) payload⟩

/-- One frame of the feed, published, received and handled. -/
theorem handles_published_sample : ∃ s : XdpSession ⟨.avx2, 4⟩, s.published = [feedFrame] ∧
    s.loop.seq = ({} : MoldSequencer).after [[7]] := by
  have of : XdpDesc.Of twoFrames libxdp ⟨0, 43⟩ 0 := ⟨by decide, by decide, by decide⟩
  have bytes : (opened twoFrames ⟨.avx2, 4⟩ 16 (byteAt feedFrame)).rx.bytes 0 43 = feedFrame := by decide
  have redirected : Redirects .little ⟨0x6712, 0xEF010101⟩ (fun _ => some 3) 0 feedFrame := by
    unfold Redirects
    decide +kernel
  have begun := @Reachable.start _ _ (opened twoFrames ⟨.avx2, 4⟩ 16 (byteAt feedFrame))
    (SessionStep twoFrames libxdp (fun _ => true) (Redirects .little ⟨0x6712, 0xEF010101⟩ (fun _ => some 3) 0))
  have taken := begun.next (.kernel (.take rfl) (fun _ member => by cases member))
  have published := taken.next (.kernel (.publish (show [twoFrames.chunk 0] = [] ++ 0 :: [] from rfl) of) (by
    intro frame member
    obtain rfl := List.mem_singleton.mp member
    exact redirected))
  have peeked := (published.next (.poll (.reserve 0 rfl (.inr rfl)) fun _ => ⟨rfl, rfl⟩)).next
    (.poll (.peek 1 5 rfl (by decide) (by decide)) (fun idle => by cases idle))
  have received := (peeked.next (.poll (.receive rfl Nat.one_pos rfl) (fun idle => by cases idle))).next
    (.poll (.release rfl) (fun idle => by cases idle))
  have handled := received.next (.packet rfl Nat.one_pos)
  obtain ⟨datagrams, k, counted, -, whole, -, seq, -⟩ := handles_published twoFrames libxdp (fun _ => true) (fun _ => true) 16
    (byteAt feedFrame) .little ⟨0x6712, 0xEF010101⟩ (fun _ => some 3) 0 handled
  refine ⟨_, rfl, seq.trans (congrArg _ ?_)⟩
  obtain rfl : k = 1 := counted.symm
  exact (whole rfl rfl).trans (by decide +kernel)

end XdpSession

end Itch
