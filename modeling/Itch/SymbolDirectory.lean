import Itch.Lib.ByteOrder
import Itch.Lib.Runs
import Itch.Messages
import Mathlib.Data.List.GetD
import Mathlib.Data.List.Induction
import Std.Data.HashMap.Lemmas

namespace Itch

/-- `Alpha<8>`: the bytes of a symbol with its padding. -/
abbrev Symbol := Vector UInt8 8

def space : UInt8 := 0x20

/-- How much of the first `n` bytes is left without the spaces at their end. -/
def trimmedLength (a : List UInt8) : Nat → Nat
  | 0 => 0
  | n + 1 => if byteAt a n = space then trimmedLength a n else n + 1

def trimmed (a : Symbol) : List UInt8 := a.toList.take (trimmedLength a.toList 8)

/-- A query, filled up with spaces. -/
def padded (symbol : List UInt8) : Symbol := .ofFn fun i => symbol.getD i space

def MsgStockDirectory.symbol (m : MsgStockDirectory) : Symbol := .ofFn fun i => byteAt m.stock i

/-- The forward array is indexed by locates, the reverse map keys on packed symbols. -/
structure SymbolDirectory where
  symbols : UInt16 → Symbol := fun _ => .replicate 8 space
  bySymbol : Std.HashMap UInt64 UInt16 := ∅

namespace SymbolDirectory

variable (o : ByteOrder)

/-- The bytes as the machine loads them. -/
def pack (s : Symbol) : UInt64 := .ofNat (o.load s.toList)

def add (d : SymbolDirectory) (locate : UInt16) (symbol : Symbol) : SymbolDirectory where
  symbols := Function.update d.symbols locate symbol
  bySymbol := d.bySymbol.insert (pack o symbol) locate

def on (d : SymbolDirectory) (m : MsgStockDirectory) : SymbolDirectory := d.add o m.locate m.symbol

def symbol (d : SymbolDirectory) (locate : UInt16) : List UInt8 := trimmed (d.symbols locate)

def locate (d : SymbolDirectory) (symbol : List UInt8) : Option UInt16 :=
  if 8 < symbol.length then none else d.bySymbol[pack o (padded symbol)]?

end SymbolDirectory

section Trim

variable {a : List UInt8} {i n : Nat}

theorem trimmedLength_le (a : List UInt8) (n : Nat) : trimmedLength a n ≤ n := by
  induction n with
  | zero => exact le_rfl
  | succ n ih =>
    rw [trimmedLength]
    split
    · exact ih.trans n.le_succ
    · exact le_rfl

/-- Only spaces are cut off. -/
theorem byteAt_trimmed (after : trimmedLength a n ≤ i) (before : i < n) : byteAt a i = space := by
  induction n with
  | zero => cases before
  | succ n ih =>
    rw [trimmedLength] at after
    split at after
    · rename_i last
      rcases Nat.lt_succ_iff_lt_or_eq.mp before with earlier | rfl
      · exact ih after earlier
      · exact last
    · omega

/-- What is cut off are all spaces behind a byte that is none. -/
theorem trimmedLength_eq {len : Nat} (last : len = 0 ∨ byteAt a (len - 1) ≠ space) (le : len ≤ n)
    (spaces : ∀ i, len ≤ i → i < n → byteAt a i = space) : trimmedLength a n = len := by
  induction n with
  | zero => exact (Nat.le_zero.mp le).symm
  | succ n ih =>
    rw [trimmedLength]
    rcases Nat.lt_or_ge n len with whole | shorter
    · obtain rfl : len = n + 1 := Nat.le_antisymm le whole
      rcases last with zero | byte
      · cases zero
      · exact if_neg byte
    · rw [if_pos (spaces n shorter n.lt_succ_self)]
      exact ih shorter fun i after before => spaces i after (before.trans n.lt_succ_self)

/-- A symbol ends where it is cut, or with a byte that is no space. -/
theorem trimmedLength_last (a : List UInt8) (n : Nat) : trimmedLength a n = 0 ∨ byteAt a (trimmedLength a n - 1) ≠ space := by
  induction n with
  | zero => exact .inl rfl
  | succ n ih =>
    rw [trimmedLength]
    split
    · exact ih
    · rename_i last
      exact .inr last

theorem trimmed_length (s : Symbol) : (trimmed s).length = trimmedLength s.toList 8 := by
  rw [trimmed, List.length_take, Vector.length_toList]
  exact Nat.min_eq_left (trimmedLength_le _ _)

theorem trimmed_bare (s : Symbol) : (trimmed s).getLast? ≠ some space := by
  intro last
  have length := trimmed_length s
  rcases trimmedLength_last s.toList 8 with none | byte
  · rw [none] at length
    rw [List.eq_nil_of_length_eq_zero length] at last
    cases last
  · rw [List.getLast?_eq_getElem?, length, trimmed, List.getElem?_take] at last
    split at last
    · rw [byteAt, List.getD_eq_getElem?_getD, last] at byte
      exact byte rfl
    · cases last

theorem byteAt_toList (s : Symbol) (inside : i < 8) : byteAt s.toList i = s[i] := by
  rw [byteAt, List.getD_eq_getElem?_getD, List.getElem?_eq_getElem (by rwa [Vector.length_toList]), Vector.getElem_toList]
  rfl

/-- Padding undoes trimming. -/
theorem padded_trimmed (s : Symbol) : padded (trimmed s) = s := by
  refine Vector.ext fun i inside => ?_
  rw [padded, Vector.getElem_ofFn, trimmed, List.getD_eq_getElem?_getD, List.getElem?_take]
  split
  · have here := byteAt_toList s inside
    rw [byteAt, List.getD_eq_getElem?_getD] at here
    rw [List.getElem?_eq_getElem (by rwa [Vector.length_toList])] at here ⊢
    exact here
  · rename_i cut
    exact (byteAt_trimmed (Nat.le_of_not_lt cut) inside).symm.trans (byteAt_toList s inside)

/-- Trimming undoes the padding of a symbol without trailing spaces. -/
theorem trimmed_padded {s : List UInt8} (short : s.length ≤ 8) (bare : s.getLast? ≠ some space) : trimmed (padded s) = s := by
  have byte : ∀ i < 8, byteAt (padded s).toList i = s.getD i space := fun i inside => by
    rw [byteAt_toList _ inside, padded, Vector.getElem_ofFn]
  have length : trimmedLength (padded s).toList 8 = s.length := by
    refine trimmedLength_eq ?_ short fun i after before => ?_
    · rcases Nat.eq_zero_or_pos s.length with zero | positive
      · exact .inl zero
      · refine .inr fun last => bare ?_
        rw [byte _ (by omega), List.getD_eq_getElem?_getD, ← List.getLast?_eq_getElem?] at last
        obtain ⟨b, here⟩ := Option.isSome_iff_exists.mp (List.getLast?_isSome.mpr (List.ne_nil_of_length_pos positive))
        rw [here] at last ⊢
        exact congrArg some last
    · rw [byte i before, List.getD_eq_default _ _ after]
  refine List.ext_getElem? fun i => ?_
  rw [trimmed, length, List.getElem?_take]
  split
  · rename_i inside
    have here := byte i (inside.trans_le short)
    rw [byteAt, List.getD_eq_getElem _ _ (by rw [Vector.length_toList]; omega), List.getD_eq_getElem _ _ inside] at here
    rw [List.getElem?_eq_getElem (by rw [Vector.length_toList]; omega), List.getElem?_eq_getElem inside, here]
  · rename_i outside
    exact (List.getElem?_eq_none (Nat.le_of_not_lt outside)).symm

end Trim

namespace SymbolDirectory

theorem pack_inj (o : ByteOrder) {s t : Symbol} (same : pack o s = pack o t) : s = t := by
  have small : ∀ s : Symbol, (pack o s).toNat = o.load s.toList := fun s => by
    have bound := o.load_lt s.toList
    rw [Vector.length_toList] at bound
    exact UInt64.toNat_ofNat_of_lt' bound
  have loads := congrArg UInt64.toNat same
  rw [small, small] at loads
  exact Vector.toList_inj.mp (o.load_inj (by rw [Vector.length_toList, Vector.length_toList]) loads)

variable (o : ByteOrder) (d : SymbolDirectory)

/-- The locate of a symbol, by the reverse map. -/
def locateOf (s : Symbol) : Option UInt16 := d.bySymbol[pack o s]?

theorem symbols_add (l m : UInt16) (s : Symbol) : (d.add o l s).symbols m = if m = l then s else d.symbols m :=
  Function.update_apply ..

theorem locateOf_add (l : UInt16) (s t : Symbol) : (d.add o l s).locateOf o t = if s = t then some l else d.locateOf o t := by
  rw [locateOf, add, Std.HashMap.getElem?_insert, locateOf]
  have keys : (pack o s == pack o t) = decide (s = t) := by
    rw [Bool.eq_iff_iff, beq_iff_eq, decide_eq_true_eq]
    exact ⟨pack_inj o, fun same => by rw [same]⟩
  rw [keys]
  split <;> rename_i same
  · rw [if_pos (of_decide_eq_true same)]
  · rw [if_neg (by simpa using same)]

theorem locateOf_empty (s : Symbol) : ({} : SymbolDirectory).locateOf o s = none := Std.HashMap.getElem?_empty

end SymbolDirectory

/-- The directory after the messages of a session. -/
def directory (o : ByteOrder) (run : List MsgStockDirectory) : SymbolDirectory := run.foldl (SymbolDirectory.on o) {}

/-- The last symbol that a locate was given. -/
def lastSymbol (run : List MsgStockDirectory) (l : UInt16) : Option Symbol :=
  (run.reverse.find? fun m => m.locate = l).map MsgStockDirectory.symbol

/-- The last locate that a symbol was given to. -/
def lastLocate (run : List MsgStockDirectory) (s : Symbol) : Option UInt16 :=
  (run.reverse.find? fun m => m.symbol = s).map (·.locate)

section Last

variable (o : ByteOrder) (run : List MsgStockDirectory) (m : MsgStockDirectory)

theorem directory_snoc : directory o (run ++ [m]) = (directory o run).add o m.locate m.symbol :=
  List.foldl_concat _ _ _ _

theorem lastSymbol_snoc (l : UInt16) : lastSymbol (run ++ [m]) l = if m.locate = l then some m.symbol else lastSymbol run l := by
  rw [lastSymbol, List.reverse_append, List.reverse_singleton, List.singleton_append, List.find?_cons]
  split <;> rename_i here
  · rw [if_pos (of_decide_eq_true here)]
    rfl
  · rw [if_neg (by simpa using here)]
    rfl

theorem lastLocate_snoc (s : Symbol) : lastLocate (run ++ [m]) s = if m.symbol = s then some m.locate else lastLocate run s := by
  rw [lastLocate, List.reverse_append, List.reverse_singleton, List.singleton_append, List.find?_cons]
  split <;> rename_i here
  · rw [if_pos (of_decide_eq_true here)]
    rfl
  · rw [if_neg (by simpa using here)]
    rfl

/-- The forward array holds the last symbol of each locate. -/
theorem symbols_directory (l : UInt16) : (directory o run).symbols l = (lastSymbol run l).getD (.replicate 8 space) := by
  induction run using List.reverseRecOn with
  | nil => rfl
  | append_singleton run m ih =>
    rw [directory_snoc, SymbolDirectory.symbols_add, lastSymbol_snoc, ih]
    by_cases here : m.locate = l
    · rw [if_pos here, if_pos here.symm]
      rfl
    · rw [if_neg here, if_neg (Ne.symm here)]

/-- The reverse map holds the last locate of each symbol. -/
theorem locateOf_directory (s : Symbol) : (directory o run).locateOf o s = lastLocate run s := by
  induction run using List.reverseRecOn with
  | nil => exact SymbolDirectory.locateOf_empty o s
  | append_singleton run m ih => rw [directory_snoc, SymbolDirectory.locateOf_add, lastLocate_snoc, ih]

theorem lastSymbol_split {before after : List MsgStockDirectory} (later : ∀ m' ∈ after, m'.locate ≠ m.locate) :
    lastSymbol (before ++ m :: after) m.locate = some m.symbol := by
  have none : after.reverse.find? (fun m' => m'.locate = m.locate) = none := by
    rw [List.find?_eq_none]
    exact fun m' member same => later m' (List.mem_reverse.mp member) (of_decide_eq_true same)
  rw [lastSymbol, List.reverse_append, List.reverse_cons, List.append_assoc, List.find?_append, none, Option.none_or,
    List.singleton_append, List.find?_cons, decide_eq_true rfl]
  rfl

theorem lastLocate_split {before after : List MsgStockDirectory} (later : ∀ m' ∈ after, m'.symbol ≠ m.symbol) :
    lastLocate (before ++ m :: after) m.symbol = some m.locate := by
  have none : after.reverse.find? (fun m' => m'.symbol = m.symbol) = none := by
    rw [List.find?_eq_none]
    exact fun m' member same => later m' (List.mem_reverse.mp member) (of_decide_eq_true same)
  rw [lastLocate, List.reverse_append, List.reverse_cons, List.append_assoc, List.find?_append, none, Option.none_or,
    List.singleton_append, List.find?_cons, decide_eq_true rfl]
  rfl

/-- A locate that a symbol maps to has a symbol. -/
theorem exists_lastSymbol {s : Symbol} {l : UInt16} (known : lastLocate run s = some l) : ∃ t, lastSymbol run l = some t := by
  obtain ⟨m, found, rfl⟩ := Option.map_eq_some_iff.mp known
  have some : (run.reverse.find? fun m' => m'.locate = m.locate).isSome :=
    List.find?_isSome.mpr ⟨m, List.mem_of_find?_eq_some found, decide_eq_true rfl⟩
  obtain ⟨m', found'⟩ := Option.isSome_iff_exists.mp some
  exact ⟨m'.symbol, by rw [lastSymbol, found']; rfl⟩

end Last

/-- The two ways of the directory agree after a session. -/
structure TwoWay (o : ByteOrder) (run : List MsgStockDirectory) : Prop where
  back : ∀ (s : List UInt8) (l : UInt16), s.getLast? ≠ some space →
    (directory o run).locate o s = some l → (directory o run).symbol l = s
  forth : ∀ before m after, run = before ++ m :: after → (∀ m' ∈ after, m'.locate ≠ m.locate) →
    (∀ m' ∈ after, m'.symbol = m.symbol → m'.locate = m.locate) →
    (directory o run).locate o ((directory o run).symbol m.locate) = some m.locate

/-- When a message gives a locate a new symbol, its old one has been given to another locate. -/
def Kept (run : List MsgStockDirectory) (m : MsgStockDirectory) : Prop :=
  ∀ s, lastSymbol run m.locate = some s → s ≠ m.symbol → lastLocate run s ≠ some m.locate

section TwoWay

variable {o : ByteOrder} {run : List MsgStockDirectory}

theorem locate_trimmed (s : Symbol) : (directory o run).locate o (trimmed s) = lastLocate run s := by
  have short : ¬ 8 < (trimmed s).length := by
    rw [trimmed_length]
    exact Nat.not_lt_of_le (trimmedLength_le ..)
  rw [SymbolDirectory.locate, if_neg short, padded_trimmed, ← locateOf_directory o]
  rfl

/-- The second way holds whatever the messages are. -/
theorem forth_always {before after : List MsgStockDirectory} {m : MsgStockDirectory} (split : run = before ++ m :: after)
    (last : ∀ m' ∈ after, m'.locate ≠ m.locate) (kept : ∀ m' ∈ after, m'.symbol = m.symbol → m'.locate = m.locate) :
    (directory o run).locate o ((directory o run).symbol m.locate) = some m.locate := by
  have symbol : (directory o run).symbols m.locate = m.symbol := by
    rw [symbols_directory, split, lastSymbol_split m last]
    rfl
  rw [SymbolDirectory.symbol, symbol, locate_trimmed, split]
  exact lastLocate_split m fun m' member same => last m' member (kept m' member same)

theorem twoWay_iff : TwoWay o run ↔
    ∀ s l, lastLocate run s = some l → (lastSymbol run l).getD (.replicate 8 space) = s := by
  constructor
  · intro twoWay s l known
    have back := twoWay.back (trimmed s) l (trimmed_bare s) ((locate_trimmed s).trans known)
    rw [SymbolDirectory.symbol, symbols_directory] at back
    rw [← padded_trimmed (Option.getD ..), back, padded_trimmed]
  · intro agree
    refine ⟨fun s l bare known => ?_, fun _ _ _ => forth_always⟩
    by_cases short : 8 < s.length
    · rw [SymbolDirectory.locate, if_pos short] at known
      cases known
    · have trim := trimmed_padded (Nat.le_of_not_lt short) bare
      rw [← trim, locate_trimmed] at known
      rw [SymbolDirectory.symbol, symbols_directory, agree _ l known, trim]

theorem twoWay_snoc (twoWay : TwoWay o run) (m : MsgStockDirectory) : TwoWay o (run ++ [m]) ↔ Kept run m := by
  rw [twoWay_iff] at twoWay ⊢
  simp only [lastLocate_snoc, lastSymbol_snoc]
  constructor
  · intro agree s _ new known
    have here := agree s m.locate (by rwa [if_neg (Ne.symm new)])
    rw [if_pos rfl] at here
    exact new here.symm
  · intro kept s l known
    split at known
    · rename_i same
      obtain rfl := Option.some.inj known
      rw [if_pos rfl]
      exact same
    · rename_i other
      have agree := twoWay s l known
      split
      · rename_i here
        subst here
        obtain ⟨t, symbol⟩ := exists_lastSymbol run known
        rw [symbol] at agree
        obtain rfl : t = s := agree
        exact absurd known (kept t symbol (Ne.symm other))
      · exact agree

/-- The directory stays a two-way map if and only if every locate that gets a new symbol
has lost its old one to another locate. -/
theorem twoWay_every_iff (o : ByteOrder) (run : List MsgStockDirectory) :
    (∀ k, TwoWay o (run.take k)) ↔ Runs.Every (fun before m => before ++ [m]) Kept [] run := by
  have start : TwoWay o [] := twoWay_iff.mpr fun s l known => by cases known
  have runs := @Runs.every_iff _ _ _ _ (TwoWay o) (fun before m twoWay => twoWay_snoc twoWay m) _ run start
  have prefix_ : ∀ (run before : List MsgStockDirectory), run.foldl (fun before m => before ++ [m]) before = before ++ run := by
    intro run
    induction run with
    | nil => exact fun before => (List.append_nil before).symm
    | cons m run ih => exact fun before => (ih _).trans (List.append_assoc ..)
  simpa only [prefix_, List.nil_append] using runs

end TwoWay

/-- A locate that is given a second symbol: `A`, then `B`. -/
def renamed : List MsgStockDirectory :=
  [{ locate := 1, stock := [65, 32, 32, 32, 32, 32, 32, 32] }, { locate := 1, stock := [66, 32, 32, 32, 32, 32, 32, 32] }]

theorem renamed_stale : ¬ ∀ (o : ByteOrder) (run : List MsgStockDirectory) (k : Nat), TwoWay o (run.take k) := by
  intro always
  have agree := twoWay_iff.mp (always .little renamed 2)
  have stale := agree (MsgStockDirectory.symbol { locate := 1, stock := [65, 32, 32, 32, 32, 32, 32, 32] }) 1 (by decide)
  exact absurd stale (by decide)

end Itch
