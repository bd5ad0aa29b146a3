import Itch.Lib.Traced
import Itch.LevelSearchVector

namespace Itch

/-- A computation on a key array, with the positions it reads. -/
abbrev KeyReads := Traced (List UInt32) Nat

def readKey (i : Nat) : KeyReads UInt32 := fun keys => (keyAt keys i, [i])

/-- `loadLanes`, which reads every lane. -/
def readLanes (p w : Nat) : KeyReads (List UInt32) := fun keys => (loadLanes keys p w, List.range' p w)

/-! The kernels with the keys they read. -/

def branchlessReads (key : UInt32) (base n : Nat) : KeyReads Nat :=
  if 1 < n then do
    let k ← readKey (base + n / 2)
    branchlessReads key (if k < key then base + n / 2 else base) (n - n / 2)
  else if n = 1 then do
    let k ← readKey base
    pure (base + if k < key then 1 else 0)
  else pure base
termination_by n

def lowerBoundBranchlessReads (n : Nat) (key : UInt32) : KeyReads Nat := branchlessReads key 0 n

namespace Scalar

/-- `std::lower_bound`: the first of the first `n` keys that is not below `key`. -/
def lowerBound (keys : List UInt32) (n : Nat) (key : UInt32) : Nat := (keys.take n).findIdx fun k => ¬ k < key

def scanBackReads (key : UInt32) (stop : Nat) : Nat → KeyReads Nat
  | 0 => pure 0
  | i + 1 =>
    if stop < i + 1 then do
      let k ← readKey i
      if key ≤ k then scanBackReads key stop i else pure (i + 1)
    else pure (i + 1)

def lowerBoundFromBackReads (chunks n : Nat) (key : UInt32) : KeyReads Nat := do
  let linear := chunks * kLevelSearchPad % 2 ^ 32
  let stop := if linear < n then n - linear else 0
  let i ← scanBackReads key stop n
  if stop < i ∨ i = 0 then pure i else lowerBoundBranchlessReads i key

end Scalar

namespace Sse2

def ltMask8Reads (key : UInt32) (p : Nat) : KeyReads Nat := do
  let bias := List.replicate 4 0x80000000
  let kb := List.replicate 4 (key ^^^ 0x80000000)
  let lo ← readLanes p 4
  let hi ← readLanes (p + 4) 4
  pure (movemaskPs (cmpgtEpi32 kb (xorLanes lo bias)) ||| movemaskPs (cmpgtEpi32 kb (xorLanes hi bias)) <<< 4)

def searchBackReads (key : UInt32) : Nat → Nat → KeyReads Nat
  | chunks, i =>
    if kLevelSearchPad ≤ i then
      match chunks with
      | 0 => lowerBoundBranchlessReads i key
      | chunks + 1 => do
        let lt ← ltMask8Reads key (i - 8)
        if lt ≠ 0 then pure (i - 8 + popcount8 lt) else searchBackReads key chunks (i - 8)
    else do
      let lt ← ltMask8Reads key 0
      pure (popcount8 (lt &&& 1 <<< i - 1))

end Sse2

def geSearchBackReads (geMask8 : Nat → KeyReads Nat) (key : UInt32) : Nat → Nat → KeyReads Nat
  | chunks, i =>
    if kLevelSearchPad ≤ i then
      match chunks with
      | 0 => lowerBoundBranchlessReads i key
      | chunks + 1 => do
        let ge ← geMask8 (i - 8)
        if ge ≠ 0xFF then pure (i - popcount8 ge) else geSearchBackReads geMask8 key chunks (i - 8)
    else do
      let ge ← geMask8 0
      pure (i - popcount8 (ge &&& 1 <<< i - 1))

def Sse41.geMask8Reads (key : UInt32) (p : Nat) : KeyReads Nat := do
  let k := List.replicate 4 key
  let lo ← readLanes p 4
  let hi ← readLanes (p + 4) 4
  pure (movemaskPs (cmpeqEpi32 (maxEpu32 lo k) lo) ||| movemaskPs (cmpeqEpi32 (maxEpu32 hi k) hi) <<< 4)

def Avx2.geMask8Reads (key : UInt32) (p : Nat) : KeyReads Nat := do
  let v ← readLanes p 8
  pure (movemaskPs (cmpeqEpi32 (maxEpu32 v (List.replicate 8 key)) v))

/-- The searches of the source but `std::lower_bound`. -/
inductive Kernel where
  | lowerBoundBranchless
  | fromBack (level : SimdLevel)

/-- The search of a kernel, `chunks` being the chunks it scans before it goes over to the binary search. -/
def Kernel.reads (kernel : Kernel) (chunks n : Nat) (key : UInt32) : KeyReads Nat :=
  match kernel with
  | lowerBoundBranchless => lowerBoundBranchlessReads n key
  | fromBack .scalar => Scalar.lowerBoundFromBackReads chunks n key
  | fromBack .sse2 => Sse2.searchBackReads key chunks n
  | fromBack .sse41 => geSearchBackReads (Sse41.geMask8Reads key) key chunks n
  | fromBack .avx2 => geSearchBackReads (Avx2.geMask8Reads key) key chunks n

open Traced

variable {keys : List UInt32} {key : UInt32} {N : Nat}

/-! What the kernels compute. -/

theorem value_branchless (base n : Nat) : (branchlessReads key base n).value keys = branchlessFrom keys key base n := by
  induction base, n using branchlessFrom.induct keys key with
  | case1 base n more ih =>
    rw [branchlessReads, branchlessFrom, if_pos more, if_pos more]
    exact ih
  | case2 base n done =>
    rw [branchlessReads, branchlessFrom, if_neg done, if_neg done]
    split <;> rename_i single
    · simp only [single, true_and]
      rfl
    · simp only [single, false_and]
      rfl

theorem Scalar.value_scanBack (stop i : Nat) : (scanBackReads key stop i).value keys = scanBack keys key stop i := by
  induction i with
  | zero => rfl
  | succ i ih =>
    rw [scanBackReads, scanBack]
    by_cases above : stop < i + 1
    · rw [if_pos above, value_bind, value_ite, ih]
      simp only [above, true_and]
      rfl
    · rw [if_neg above, if_neg fun both => above both.1]
      rfl

theorem Scalar.value_fromBack (chunks n : Nat) :
    (lowerBoundFromBackReads chunks n key).value keys = lowerBoundFromBack chunks keys n key := by
  rw [lowerBoundFromBackReads, lowerBoundFromBack, value_bind, value_scanBack, value_ite]
  exact congrArg _ (value_branchless 0 _)

theorem Sse2.value_searchBack (chunks i : Nat) : (searchBackReads key chunks i).value keys = searchBack keys key chunks i := by
  induction chunks generalizing i with
  | zero =>
    rw [searchBackReads, searchBack, value_ite]
    exact congrArg (ite _ · _) (value_branchless 0 i)
  | succ chunks ih =>
    rw [searchBackReads, searchBack, value_ite, value_bind, value_ite, ih]
    rfl

theorem value_geSearchBack {reads : Nat → KeyReads Nat} {geMask8 : Nat → Nat} (same : ∀ p, (reads p).value keys = geMask8 p)
    (chunks i : Nat) : (geSearchBackReads reads key chunks i).value keys = geSearchBack geMask8 keys key chunks i := by
  induction chunks generalizing i with
  | zero =>
    rw [geSearchBackReads, geSearchBack, value_ite, value_bind, same]
    exact congrArg (ite _ · _) (value_branchless 0 i)
  | succ chunks ih =>
    rw [geSearchBackReads, geSearchBack, value_ite, value_bind, value_bind, value_ite, ih, same, same]
    rfl

/-- A back search is the one that the engine uses. -/
theorem value_fromBack (level : SimdLevel) (chunks n : Nat) :
    ((Kernel.fromBack level).reads chunks n key).value keys = (level.search chunks).lowerBound keys n key := by
  cases level with
  | scalar => exact Scalar.value_fromBack chunks n
  | sse2 => exact Sse2.value_searchBack chunks n
  | sse41 => exact value_geSearchBack (fun _ => rfl) chunks n
  | avx2 => exact value_geSearchBack (fun _ => rfl) chunks n

/-! Where they read. -/

theorem within_readKey {P : Nat → Prop} {i : Nat} (inside : P i) : Within P keys (readKey i) := by
  intro e member
  rw [List.mem_singleton.mp member]
  exact inside

theorem within_readLanes {p w : Nat} (inside : p + w ≤ N) : Within (· < N) keys (readLanes p w) := by
  intro e member
  obtain ⟨-, high⟩ := List.mem_range'_1.mp member
  omega

theorem within_branchless {base n : Nat} (inside : base + n ≤ N) :
    Within (· < N) keys (branchlessReads key base n) := by
  induction base, n using branchlessFrom.induct keys key with
  | case1 base n more ih =>
    rw [branchlessReads, if_pos more]
    refine within_bind (within_readKey (by omega)) (ih ?_)
    split <;> omega
  | case2 base n done =>
    rw [branchlessReads, if_neg done]
    exact within_ite (fun single => within_bind (within_readKey (by omega)) (within_pure _)) fun _ => within_pure _

theorem Scalar.within_scanBack {stop i : Nat} (inside : i ≤ N) : Within (· < N) keys (scanBackReads key stop i) := by
  induction i with
  | zero => exact within_pure 0
  | succ i ih =>
    refine within_ite (fun _ => within_bind (within_readKey inside) ?_) fun _ => within_pure _
    exact within_ite (fun _ => ih (by omega)) fun _ => within_pure _

/-- The scan does not go up. -/
theorem Scalar.scanBack_le (stop i : Nat) : scanBack keys key stop i ≤ i := by
  induction i with
  | zero => exact Nat.le_refl 0
  | succ i ih =>
    rw [scanBack]
    split <;> omega

theorem Scalar.within_fromBack {chunks n : Nat} (inside : n ≤ N) :
    Within (· < N) keys (lowerBoundFromBackReads chunks n key) := by
  refine within_bind (Scalar.within_scanBack inside) (within_ite (fun _ => within_pure _) fun _ => ?_)
  refine within_branchless ?_
  rw [Scalar.value_scanBack, Nat.zero_add]
  exact (scanBack_le _ n).trans inside

section Vector

variable (wide : 8 ≤ N)
include wide

theorem Sse2.within_searchBack {chunks i : Nat} (inside : i ≤ N) :
    Within (· < N) keys (searchBackReads key chunks i) := by
  have mask : ∀ p, p + 8 ≤ N → Within (· < N) keys (ltMask8Reads key p) := fun p fits =>
    within_bind (within_readLanes (by omega)) (within_bind (within_readLanes (by omega)) (within_pure _))
  induction chunks generalizing i with
  | zero =>
    rw [searchBackReads]
    refine within_ite (fun _ => within_branchless (by omega)) fun _ => ?_
    exact within_bind (mask 0 (by omega)) (within_pure _)
  | succ chunks ih =>
    rw [searchBackReads]
    refine within_ite (fun whole => ?_) fun _ => within_bind (mask 0 (by omega)) (within_pure _)
    rw [kLevelSearchPad] at whole
    refine within_bind (mask (i - 8) (by omega)) ?_
    exact within_ite (fun _ => within_pure _) fun _ => ih (by omega)

theorem within_geSearchBack {reads : Nat → KeyReads Nat} (mask : ∀ p, p + 8 ≤ N → Within (· < N) keys (reads p))
    {chunks i : Nat} (inside : i ≤ N) : Within (· < N) keys (geSearchBackReads reads key chunks i) := by
  induction chunks generalizing i with
  | zero =>
    rw [geSearchBackReads]
    refine within_ite (fun _ => within_branchless (by omega)) fun _ => ?_
    exact within_bind (mask 0 (by omega)) (within_pure _)
  | succ chunks ih =>
    rw [geSearchBackReads]
    refine within_ite (fun whole => ?_) fun _ => within_bind (mask 0 (by omega)) (within_pure _)
    rw [kLevelSearchPad] at whole
    refine within_bind (mask (i - 8) (by omega)) ?_
    exact within_ite (fun _ => within_pure _) fun _ => ih (by omega)

end Vector

theorem Kernel.within (kernel : Kernel) (chunks n : Nat) :
    Within (· < max n kLevelSearchPad) keys (kernel.reads chunks n key) := by
  have wide : 8 ≤ max n kLevelSearchPad := Nat.le_max_right ..
  have inside : n ≤ max n kLevelSearchPad := Nat.le_max_left ..
  have two : ∀ {key : UInt32} p, p + 8 ≤ max n kLevelSearchPad →
      Within (· < max n kLevelSearchPad) keys (Sse41.geMask8Reads key p) := fun p fits =>
    within_bind (within_readLanes (by omega)) (within_bind (within_readLanes (by omega)) (within_pure _))
  have one : ∀ {key : UInt32} p, p + 8 ≤ max n kLevelSearchPad →
      Within (· < max n kLevelSearchPad) keys (Avx2.geMask8Reads key p) := fun p fits =>
    within_bind (within_readLanes fits) (within_pure _)
  match kernel with
  | lowerBoundBranchless => exact within_branchless (by omega)
  | fromBack .scalar => exact Scalar.within_fromBack inside
  | fromBack .sse2 => exact Sse2.within_searchBack wide inside
  | fromBack .sse41 => exact within_geSearchBack wide two inside
  | fromBack .avx2 => exact within_geSearchBack wide one inside

/-- `std::lower_bound` gives the lower bound. -/
theorem IsLowerBound.lowerBound_eq {n r : Nat} (bound : IsLowerBound keys n key r) (readable : n ≤ keys.length) :
    Scalar.lowerBound keys n key = r := by
  have length : (keys.take n).length = n := by rw [List.length_take, Nat.min_eq_left readable]
  have lane : ∀ i (inside : i < (keys.take n).length), (keys.take n)[i] = keyAt keys i := by
    intro i inside
    rw [List.getElem_take, keyAt, List.getD_eq_getElem]
  unfold Scalar.lowerBound
  rcases Nat.lt_or_ge r n with found | past
  · refine (List.findIdx_eq (length.symm ▸ found)).mpr ⟨?_, ?_⟩
    · simpa [lane] using bound.notBelow r (Nat.le_refl r) found
    · intro j before
      simpa [lane] using bound.below j before
  · have all : r = n := Nat.le_antisymm bound.le past
    rw [all]
    refine (List.findIdx_eq_length.mpr ?_).trans length
    intro k member
    obtain ⟨i, inside, rfl⟩ := List.getElem_of_mem member
    rw [lane i inside]
    simpa using bound.below i (by omega)

/-- Every kernel gives what `std::lower_bound` gives, whatever lies past the first `n` keys
and however many chunks are scanned, and reads no key past the first eight or `n`. -/
theorem kernels_agree (kernel : Kernel) (chunks n : Nat) (keys : List UInt32) (key : UInt32) (sorted : Ascending keys n)
    (readable : max n kLevelSearchPad ≤ keys.length) :
    (kernel.reads chunks n key).value keys = Scalar.lowerBound keys n key ∧
      IsLowerBound keys n key (Scalar.lowerBound keys n key) ∧
      Within (· < max n kLevelSearchPad) keys (kernel.reads chunks n key) := by
  obtain ⟨r, bound⟩ := sorted.exists_lowerBound key
  rw [bound.lowerBound_eq (by omega)]
  refine ⟨?_, bound, kernel.within chunks n⟩
  cases kernel with
  | lowerBoundBranchless => exact (value_branchless 0 n).trans (lowerBoundBranchless_eq bound)
  | fromBack level => exact (value_fromBack level chunks n).trans ((level.search chunks).finds _ _ _ _ bound)

theorem kernels_agree_sample :
    ((Kernel.fromBack .sse2).reads 0 3 5).value [2, 5, 0xFFFFFFFF, 9, 1, 0, 7, 8] = 1 := by
  have sorted : ∀ j < 3, ∀ i ≤ j, keyAt [2, 5, 0xFFFFFFFF, 9, 1, 0, 7, 8] i ≤ keyAt [2, 5, 0xFFFFFFFF, 9, 1, 0, 7, 8] j := by
    decide
  exact (kernels_agree (.fromBack .sse2) 0 3 _ 5 (fun i j before inside => sorted j inside i before) (by decide)).1

end Itch
