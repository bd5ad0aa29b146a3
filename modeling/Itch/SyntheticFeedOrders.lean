import Itch.FeedSession
import Itch.SyntheticFeed

namespace Itch

open MessageType

namespace SyntheticFeed

variable {ρ : Type}

/-- The order of the book that a live order of a symbol stands for. -/
def order (sym : Nat) (l : Live) : Order :=
  { ref := l.ref, price := l.price, shares := l.shares, locate := UInt16.ofNat (sym + 1), side := l.side }

/-- The live orders of all symbols. -/
def orders (symbols : Nat) (syms : Nat → FeedSymbol) : List Order :=
  (List.range symbols).flatMap fun sym => (syms sym).live.map (order sym)

theorem orders_congr {symbols : Nat} {syms syms' : Nat → FeedSymbol} (same : ∀ i, (syms' i).live = (syms i).live) :
    orders symbols syms' = orders symbols syms := by
  rw [orders, orders]
  exact List.flatMap_congr fun i _ => by rw [same]

/-- A change of the live orders of one symbol. -/
theorem orders_update {symbols sym : Nat} (inside : sym < symbols) (syms : Nat → FeedSymbol) {s : FeedSymbol}
    {gone new rest : List Live} (old : (syms sym).live.Perm (gone ++ rest)) (after : s.live.Perm (new ++ rest)) :
    ∃ others, (orders symbols syms).Perm (gone.map (order sym) ++ others) ∧
      (orders symbols (Function.update syms sym s)).Perm (new.map (order sym) ++ others) := by
  obtain ⟨front, back, range⟩ := List.append_of_mem (List.mem_range.mpr inside)
  have once : (front ++ sym :: back).Nodup := range ▸ List.nodup_range
  rw [List.nodup_append] at once
  obtain ⟨-, behind, apart⟩ := once
  have same : ∀ l : List Nat, sym ∉ l →
      (l.flatMap fun i => (Function.update syms sym s i).live.map (order i)) =
        l.flatMap fun i => (syms i).live.map (order i) := by
    intro l absent
    refine List.flatMap_congr fun i member => ?_
    have other : i ≠ sym := fun eq => absent (eq ▸ member)
    rw [Function.update_of_ne other]
  have frontSame := same front fun member => apart sym member sym List.mem_cons_self rfl
  have backSame := same back (List.nodup_cons.mp behind).1
  have collect : ∀ (moved : List Live) (live : List Live), live.Perm (moved ++ rest) →
      ((front.flatMap fun i => (syms i).live.map (order i)) ++ (live.map (order sym) ++
        back.flatMap fun i => (syms i).live.map (order i))).Perm (moved.map (order sym) ++
          ((front.flatMap fun i => (syms i).live.map (order i)) ++ (rest.map (order sym) ++
            back.flatMap fun i => (syms i).live.map (order i)))) := by
    intro moved live perm
    have mapped := perm.map (order sym)
    rw [List.map_append] at mapped
    refine ((mapped.append_right _).append_left _).trans ?_
    rw [List.append_assoc, ← List.append_assoc, ← List.append_assoc (moved.map (order sym))]
    exact List.perm_append_comm.append_right _
  refine ⟨(front.flatMap fun i => (syms i).live.map (order i)) ++ (rest.map (order sym) ++
    back.flatMap fun i => (syms i).live.map (order i)), ?_, ?_⟩
  · rw [orders, range, List.flatMap_append, List.flatMap_cons]
    exact collect gone _ old
  · rw [orders, range, List.flatMap_append, List.flatMap_cons, frontSame, backSame, Function.update_self]
    exact collect new _ after

section SwapPop

variable {v : List Live} {idx : Nat} (inside : idx < v.length)
include inside

/-- The erasure takes just the order at `idx`. -/
theorem swapPop_perm : v.Perm (v.getD idx default :: swapPop v idx) := by
  obtain ⟨front, last, rfl⟩ := (List.eq_nil_or_concat v).resolve_left (by rintro rfl; cases inside)
  rw [List.concat_eq_append] at inside ⊢
  rw [swapPop, List.getLastD_concat]
  rw [List.length_append, List.length_singleton] at inside
  rcases Nat.lt_or_eq_of_le (Nat.le_of_lt_succ inside) with before | rfl
  · rw [List.set_append_left _ _ before, List.dropLast_concat, List.getD_append _ _ _ _ before, List.getD_eq_getElem _ _ before]
    have swapped := (List.set_perm_cons_eraseIdx before last).cons front[idx]
    have whole := (List.getElem_cons_eraseIdx_perm before).cons last
    exact List.perm_append_comm.trans (whole.symm.trans ((List.Perm.swap _ _ _).trans swapped.symm))
  · have same : (front ++ [last]).set front.length last = front ++ [last] := by
      rw [List.set_append_right _ _ (Nat.le_refl _), Nat.sub_self]
      rfl
    rw [same, List.dropLast_concat, List.getD_append_right _ _ _ _ (Nat.le_refl _), Nat.sub_self]
    exact List.perm_append_singleton last front

theorem set_perm (l : Live) : (v.set idx l).Perm (l :: v.eraseIdx idx) := List.set_perm_cons_eraseIdx inside l

theorem getD_perm : v.Perm (v.getD idx default :: v.eraseIdx idx) := by
  rw [List.getD_eq_getElem _ _ inside]
  exact (List.getElem_cons_eraseIdx_perm inside).symm

theorem getD_mem : v.getD idx default ∈ v := (getD_perm inside).mem_iff.mpr List.mem_cons_self

/-- An order that is written and then erased takes just its place with it. -/
theorem swapPop_set_perm (l : Live) : (swapPop (v.set idx l) idx).Perm (v.eraseIdx idx) := by
  have still : idx < (v.set idx l).length := by rwa [List.length_set]
  have erased := swapPop_perm still
  rw [List.getD_eq_getElem _ _ still, List.getElem_set_self] at erased
  exact (erased.symm.trans (set_perm inside l)).cons_inv

/-- The orders after some shares were taken from the one at `idx`. -/
theorem took_perm (l : Live) (left : UInt32) : (if left = 0 then swapPop (v.set idx l) idx else v.set idx l).Perm
    ((if left = 0 then [] else [l]) ++ v.eraseIdx idx) := by
  split
  · exact swapPop_set_perm inside l
  · exact set_perm inside l

end SwapPop

/-- All shares of an order, or a part of them but at least one. -/
theorem part_of {shares d : UInt32} (some : shares ≠ 0) (all : Bool) :
    1 ≤ (if all then shares else max 1 (shares / d)) ∧ (if all then shares else max 1 (shares / d)) ≤ shares := by
  have positive : shares.toNat ≠ 0 := fun zero => some (UInt32.toNat_inj.mp zero)
  have one : (1 : UInt32) ≤ shares := UInt32.le_iff_toNat_le.mpr (Nat.one_le_iff_ne_zero.mpr positive)
  have part : shares / d ≤ shares := by
    rw [UInt32.le_iff_toNat_le, UInt32.toNat_div]
    exact Nat.div_le_self _ _
  split
  · exact ⟨one, UInt32.le_refl _⟩
  · rw [UInt32.max_def]
    split
    · exact ⟨by assumption, part⟩
    · exact ⟨UInt32.le_refl _, one⟩

end SyntheticFeed

end Itch
