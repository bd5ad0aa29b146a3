import Itch.Reads

namespace Itch

open Traced

/-- A byte of the message of `r`. -/
def Record.Own (r : Record) : Read → Prop
  | .framing _ => False
  | .content r' i => r' = r ∧ r.start ≤ i ∧ i < r.start + r.len

theorem within_readAt {α : Type} {P : Read → Prop} {buf : List UInt8} {read : Nat → Read} {i width : Nat}
    {value : List UInt8 → Nat → α} (all : ∀ k, i ≤ k → k < i + width → P (read k)) :
    Within P buf (readAt read i width value) := by
  intro e member
  obtain ⟨k, inside, rfl⟩ := List.mem_map.mp member
  obtain ⟨after, before⟩ := List.mem_range'_1.mp inside
  exact all k after before

/-- The length of a tiled message is that of its header and its fields. -/
theorem tile_length {fs : List Field} {next stop : Nat} (tiles : TileFrom next fs stop) : next ≤ stop := by
  induction fs generalizing next with
  | nil => exact tiles.le
  | cons f fs ih =>
    have rest := ih tiles.2
    have start := tiles.1
    omega

theorem header_inside {M : MessageType} (member : M ∈ MessageType.all) : kHeaderLength ≤ M.kLength :=
  tile_length (M.fieldsTileMessage_iff.mp (MessageType.all_tile M member))

theorem header_le {type : UInt8} {len : Nat} (length : kMessageLength type = len) (some : len ≠ 0) : kHeaderLength ≤ len := by
  obtain ⟨M, member, -, known⟩ := MessageType.kMessageLength_eq type (length.trans_ne some)
  exact (header_inside member).trans (known.symm.trans length).le

namespace Record

variable {r : Record} {buf : List UInt8}

theorem own_readAt {α : Type} {i width : Nat} {value : List UInt8 → Nat → α} (fits : i + width ≤ r.len) :
    Within r.Own buf (readAt (.content r) (r.start + i) width value) :=
  within_readAt fun _ _ _ => ⟨rfl, by omega, by omega⟩

theorem own_decodeValue {offset : Nat} {t : FieldType} (fits : offset + t.size ≤ r.len) :
    Within r.Own buf (r.decodeValue offset t) := by
  cases t with
  | char => exact own_readAt fits
  | u16 => exact own_readAt fits
  | u32 => exact own_readAt fits
  | u64 => exact own_readAt fits
  | alpha n some => exact own_readAt fits

theorem own_decodeFields {fs : List Field} {next stop : Nat} (tiles : TileFrom next fs stop) (fits : stop ≤ r.len) :
    Within r.Own buf (r.decodeFields fs) := by
  induction fs generalizing next with
  | nil => exact within_pure ()
  | cons f fs ih =>
    have inside : f.offset + f.type.size ≤ r.len := (tile_length tiles.2).trans fits
    exact within_bind (own_decodeValue inside) (within_bind (ih tiles.2) (within_pure _))

/-- The over-read of the timestamp starts at the third byte. -/
theorem own_timestamp (fits : kHeaderLength ≤ r.len) : Within r.Own buf (r.be48Overread 5) := by
  have eleven : 11 ≤ r.len := fits
  exact within_bind (own_readAt (by omega)) (within_pure _)

theorem own_decode {M : MessageType} (member : M ∈ MessageType.all) (fits : M.kLength ≤ r.len) :
    Within r.Own buf (r.decode M) := by
  have header := (header_inside member).trans fits
  have eleven : 11 ≤ r.len := header
  have fields := @own_decodeFields r buf _ _ _ (M.fieldsTileMessage_iff.mp (MessageType.all_tile M member)) fits
  exact within_bind (own_readAt (by omega)) (within_bind (own_readAt (by omega))
    (within_bind (own_timestamp header) (within_bind fields (within_pure _))))

end Record

namespace Parser

variable {σ : Type} {L : Listener σ} {r : Record} {buf : List UInt8}

theorem own_dispatch (p : Parser σ) {type : UInt8} (length : kMessageLength type = r.len) :
    Within r.Own buf (p.dispatchReads L type r) := by
  unfold dispatchReads
  split
  · exact within_pure p
  · rename_i M found
    have member := List.mem_of_find?_eq_some found
    have same : ascii M.kType = type := by simpa using List.find?_some found
    split
    · exact within_pure p
    · refine within_bind (Record.own_decode member ?_) (within_pure _)
      rw [← length, ← same, MessageType.kMessageLength_of member]

/-- Parsing reads bytes of its record only, whatever they are. -/
theorem own_parse (L : Listener σ) (p : Parser σ) (r : Record) : Within r.Own buf (p.parseReads L r) := by
  unfold parseReads
  refine within_ite (fun _ => within_pure _) fun some => within_bind (Record.own_readAt (by omega)) ?_
  refine within_ite (fun _ => ?_) fun expected => ?_
  · exact within_ite (fun _ => within_pure _) fun _ => within_pure _
  · have length := not_not.mp expected
    split
    · exact own_dispatch _ length
    · have header : 11 ≤ r.len := header_le length some
      refine within_bind (Record.own_readAt (by omega)) ?_
      exact within_ite (fun _ => own_dispatch _ length) fun _ => within_pure _

end Parser

namespace BookBuilder

variable {r : Record} {buf : List UInt8}

theorem own_wants (wants : Option (UInt8 → UInt16 → Bool)) (long : 19 ≤ r.len) : Within r.Own buf (wantsReads wants r) := by
  cases wants with
  | none => exact within_pure true
  | some wants =>
    exact within_bind (Record.own_readAt (by omega)) (within_bind (Record.own_readAt (by omega)) (within_pure _))

/-- A prefetch of any record, however short for its type, reads bytes of it only. -/
theorem own_prefetch (wants : Option (UInt8 → UInt16 → Bool)) (r : Record) : Within r.Own buf (prefetchReads wants r) := by
  unfold prefetchReads
  refine within_ite (fun _ => within_pure _) fun short => ?_
  have long := Nat.le_of_not_lt short
  refine within_bind (own_wants wants long) (within_ite (fun _ => within_pure _) fun _ => ?_)
  refine within_bind (Record.own_readAt (by omega)) ?_
  refine within_ite (fun _ => ?_) fun _ => within_ite (fun _ => ?_) fun _ => within_ite (fun _ => ?_) fun _ => within_pure _
  · refine within_bind (Record.own_readAt (by omega)) (within_ite (fun side => ?_) fun _ => within_pure _)
    exact within_bind (Record.own_readAt (by omega)) (within_bind (Record.own_readAt (by omega)) (within_pure _))
  · exact within_bind (Record.own_readAt (by omega)) (within_bind (Record.own_readAt (by omega)) (within_pure _))
  · refine within_bind (Record.own_readAt (by omega)) (within_bind ?_
      (within_bind (Record.own_readAt (by omega)) (within_pure _)))
    exact within_ite (fun both => within_bind (Record.own_readAt (by omega)) (within_pure _)) fun _ => within_pure _

end BookBuilder

theorem FrameCall.own_reads {r : Record} (fits : kHeaderLength ≤ r.len) (buf : List UInt8) (c : FrameCall) :
    Within r.Own buf (c.reads r) := by
  have eleven : 11 ≤ r.len := fits
  cases c with
  | type => exact within_map (Record.own_readAt (by omega))
  | locate => exact within_map (Record.own_readAt (by omega))
  | tracking => exact within_map (Record.own_readAt (by omega))
  | timestamp => exact within_map (Record.own_timestamp fits)

theorem FrameProgram.own_run {τ : Type} {r : Record} (fits : kHeaderLength ≤ r.len) (buf : List UInt8) (f : FrameProgram τ) :
    Within r.Own buf (f.run r) := by
  induction f with
  | done t => exact within_pure t
  | call c next ih => exact within_bind (c.own_reads fits buf) (ih _)

end Itch
