import Itch.LevelSearchVector

namespace Itch

/-- One side of a book: three parallel arrays of `cap` elements, the first `size`
ascending by key with the best level last. `size` and `cap` are 32-bit. -/
structure LevelSide where
  keys : List UInt32 := []
  qty : List UInt64 := []
  orders : List UInt32 := []
  size : Nat := 0
  cap : Nat := 0

/-- What `reduce` tells its caller. -/
inductive Reduce where
  | ok
  | topChanged
  | missingLevel
  deriving DecidableEq

namespace LevelSide

def kInitialLevels : Nat := 16

section Arrays

variable {α : Type} [Inhabited α]

/-- A fresh array of `cap` zeros with the first `size` old elements copied in. -/
def regrow (old : List α) (size cap : Nat) : List α :=
  (List.range cap).map fun i => if i < size then old.getD i default else default

/-- `a[pos .. pos + count)` moved to `a[pos + 1 .. pos + count + 1)`. -/
def shiftUp (a : List α) (pos count : Nat) : List α :=
  (List.range a.length).map fun i => a.getD (if pos < i ∧ i ≤ pos + count then i - 1 else i) default

/-- `a[pos + 1 .. pos + count + 1)` moved to `a[pos .. pos + count)`. -/
def shiftDown (a : List α) (pos count : Nat) : List α :=
  (List.range a.length).map fun i => a.getD (if pos ≤ i ∧ i < pos + count then i + 1 else i) default

end Arrays

/-- Doubles the arrays. -/
def grow (s : LevelSide) : LevelSide :=
  let cap := if s.cap = 0 then kInitialLevels else s.cap * 2 % 2 ^ 32
  { keys := regrow s.keys s.size cap, qty := regrow s.qty s.size cap, orders := regrow s.orders s.size cap,
    size := s.size, cap }

def qtyAt (s : LevelSide) (i : Nat) : UInt64 := s.qty.getD i 0

def ordersAt (s : LevelSide) (i : Nat) : UInt32 := s.orders.getD i 0

section Search

variable (search : LevelSearch)

/-- The position of `key`, or where it would go. -/
def find (s : LevelSide) (key : UInt32) : Nat := if s.size ≠ 0 then search.lowerBound s.keys s.size key else 0

/-- Adds an order; true if the top of the book changed. -/
def add (s : LevelSide) (key shares : UInt32) : LevelSide × Bool :=
  let n := s.size
  let pos := s.find search key
  if pos < n ∧ keyAt s.keys pos = key then
    ({ s with qty := s.qty.set pos (s.qtyAt pos + shares.toUInt64), orders := s.orders.set pos (s.ordersAt pos + 1) },
      pos = n - 1)
  else
    let s := if n = s.cap then s.grow else s
    let tail := n - pos
    let s := if tail ≠ 0 then
        { s with keys := shiftUp s.keys pos tail, qty := shiftUp s.qty pos tail, orders := shiftUp s.orders pos tail }
      else s
    ({ s with keys := s.keys.set pos key, qty := s.qty.set pos shares.toUInt64, orders := s.orders.set pos 1,
              size := (n + 1) % 2 ^ 32 }, tail = 0)

/-- Takes `shares` from a level, and an order if `orderGone`. -/
def reduce (s : LevelSide) (key shares : UInt32) (orderGone : Bool) : LevelSide × Reduce :=
  let n := s.size
  if n = 0 then (s, .missingLevel) else
  let pos := search.lowerBound s.keys n key
  if n ≤ pos ∨ keyAt s.keys pos ≠ key then (s, .missingLevel) else
  let s := { s with
    qty := s.qty.set pos (s.qtyAt pos - shares.toUInt64)
    orders := s.orders.set pos (s.ordersAt pos - if orderGone then 1 else 0) }
  let s := if s.ordersAt pos = 0 then
      let tail := n - pos - 1
      let s := if tail ≠ 0 then
          { s with keys := shiftDown s.keys pos tail, qty := shiftDown s.qty pos tail,
                   orders := shiftDown s.orders pos tail }
        else s
      { s with size := n - 1 }
    else s
  (s, if pos = n - 1 then .topChanged else .ok)

end Search

def empty (s : LevelSide) : Bool := s.size = 0

/-- The level counted from the top of the book, 0 being the best. -/
def keyAtLevel (s : LevelSide) (level : Nat) : UInt32 := keyAt s.keys (s.size - 1 - level)

def qtyAtLevel (s : LevelSide) (level : Nat) : UInt64 := s.qtyAt (s.size - 1 - level)

def ordersAtLevel (s : LevelSide) (level : Nat) : UInt32 := s.ordersAt (s.size - 1 - level)

/-- Allocates the initial arrays if there are none. -/
def reserveInitial (s : LevelSide) : LevelSide := if s.cap = 0 then s.grow else s

end LevelSide

end Itch
