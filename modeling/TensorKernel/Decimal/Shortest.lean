import TensorKernel.Decimal.Binary

/-!
# Shortest decimals

The shortest decimal of a floating-point number is the decimal with the fewest
digits that reads back as the number, and among those the one nearest to it; of
two equally near ones it is the larger.

A decimal of `n` significant digits is a whole number on the grid of some power
of ten, and if any point of that grid reads back then one of the two grid
points next to the number does. So the search tries ever finer grids, starting
at the power of ten of the number itself, and the first grid with a hit decides.
-/

namespace TensorKernel

/-- Significant digits and the power of ten that the first of them counts. -/
structure Decimal where
  digits : List Char
  lead : Int
  deriving DecidableEq

namespace RoundingInterval

/-- The whole number nearest to the value, if it lies in the interval, else the
other neighbour, if that does. A tie goes up. -/
def nearestWhole? (i : RoundingInterval) : Option Nat :=
  let below := i.value / i.unit
  let above := below + 1
  match i.contains below, i.contains above with
  | true, true => some (if 2 * i.value < (below + above) * i.unit then below else above)
  | true, false => some below
  | false, true => some above
  | false, false => none

/-- What `nearestWhole?` finds lies in the interval. -/
theorem contains_of_nearestWhole? {i : RoundingInterval} {n : Nat}
    (h : i.nearestWhole? = some n) : i.contains n = true := by
  unfold nearestWhole? at h
  dsimp only at h
  split at h
  · split at h <;> cases h <;> assumption
  · cases h; assumption
  · cases h; assumption
  · cases h

/-- How many decimal digits a number has. -/
def digitCount (n : Nat) : Nat := (Nat.toDigits 10 n).length

/-- The power of ten at or below the value, which has to be positive. -/
def leadingExponent (i : RoundingInterval) : Int :=
  let e : Int := (digitCount i.value : Int) - digitCount i.unit
  let s := i.scaled e
  if s.unit ≤ s.value then e else e - 1

/-- Tries the grids of `10 ^ e`, `10 ^ (e - 1)`, … in turn; a whole number of
the first grid with a hit, with that grid's exponent. After the last grid the
number below the value is taken, which lies in the interval of every format
that the number of tries is enough for. -/
def search (i : RoundingInterval) (e : Int) : Nat → Nat × Int
  | 0 => let s := i.scaled e; (s.value / s.unit, e)
  | tries + 1 =>
    match (i.scaled e).nearestWhole? with
    | some n => (n, e)
    | none => i.search (e - 1) tries

/-- **What the search finds reads back**: it lies in the interval, unless the tries have run out. -/
theorem contains_search {i : RoundingInterval} {e : Int} {tries : Nat} :
    (i.scaled (i.search e tries).2).contains (i.search e tries).1 = true ∨
      (i.search e tries).2 = e - tries := by
  induction tries generalizing e with
  | zero => exact .inr (Int.sub_zero e).symm
  | succ tries ih =>
    unfold search
    split
    · next n hn => exact .inl (contains_of_nearestWhole? hn)
    · -- the next grid is finer by one digit
      refine ih.imp id fun hlast => hlast.trans ?_
      omega

/-- Seventeen digits tell any two numbers of 64 bits apart. -/
def maxDigits : Nat := 17

/-- The shortest decimal in the interval; its value has to be positive. -/
def shortest (i : RoundingInterval) : Decimal :=
  let (n, e) := i.search i.leadingExponent maxDigits
  let digits := Nat.toDigits 10 n
  { digits := (digits.reverse.dropWhile (· == '0')).reverse
    lead := e + digits.length - 1 }

end RoundingInterval

end TensorKernel
