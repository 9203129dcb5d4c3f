/-!
# Binary floating-point data

A binary interchange format is given by the widths of its fraction and exponent
fields. Every finite datum of a format is a whole multiple of the format's
smallest positive number, so its magnitude is written as a natural number
`significand * 2 ^ scale` in that unit and no rounding is needed to talk about
it exactly.

A reader of decimals takes any real number near a datum to that datum.
`RoundingInterval` is the set of those reals: it reaches half way to the
neighbour on either side, and the two half-way points belong to it exactly when
the significand is even, because a tie goes to the even neighbour.
-/

namespace TensorKernel

/-- The field widths of a binary floating-point format. -/
structure BinaryFormat where
  fractionBits : Nat
  exponentBits : Nat
  deriving DecidableEq

namespace BinaryFormat

def binary32 : BinaryFormat := ⟨23, 8⟩

def binary64 : BinaryFormat := ⟨52, 11⟩

/-- The smallest positive number of the format is `2 ^ -unitBits`. -/
def unitBits (f : BinaryFormat) : Nat := Nat.pow 2 (f.exponentBits - 1) - 2 + f.fractionBits

end BinaryFormat

/-- What the bits of a floating-point number say. -/
inductive BinaryDatum where
  | nan
  | infinite (negative : Bool)
  /-- The number `± significand * 2 ^ scale`, in units of the smallest positive one. -/
  | finite (negative : Bool) (significand scale : Nat)
  deriving DecidableEq

/-- Reads sign, exponent field and fraction field off the bits. -/
def BinaryDatum.ofBits (f : BinaryFormat) (bits : Nat) : BinaryDatum :=
  let fraction := bits % Nat.pow 2 f.fractionBits
  let exponent := bits / Nat.pow 2 f.fractionBits % Nat.pow 2 f.exponentBits
  let negative := bits / Nat.pow 2 (f.fractionBits + f.exponentBits) % 2 == 1
  if exponent = Nat.pow 2 f.exponentBits - 1 then
    if fraction = 0 then .infinite negative else .nan
  else if exponent = 0 then .finite negative fraction 0
  else .finite negative (Nat.pow 2 f.fractionBits + fraction) (exponent - 1)

/-- The reals between `low / unit` and `high / unit`, around `value / unit`. -/
structure RoundingInterval where
  low : Nat
  value : Nat
  high : Nat
  unit : Nat
  /-- Whether the two ends belong to the interval. -/
  closed : Bool
  deriving DecidableEq

namespace RoundingInterval

/-- The reals that read back as the number `significand * 2 ^ scale`. All is
counted in quarters of the format's unit. Below the least significand of a
binade the neighbour is only half as far away as above it. -/
def ofFinite (f : BinaryFormat) (significand scale : Nat) : RoundingInterval where
  low :=
    (4 * significand - if significand = Nat.pow 2 f.fractionBits ∧ 0 < scale then 1 else 2) *
      Nat.pow 2 scale
  value := 4 * significand * Nat.pow 2 scale
  high := (4 * significand + 2) * Nat.pow 2 scale
  unit := 4 * Nat.pow 2 f.unitBits
  closed := significand % 2 == 0

/-- The interval divided by `10 ^ e`. -/
def scaled (i : RoundingInterval) : Int → RoundingInterval
  | .ofNat e => { i with unit := i.unit * Nat.pow 10 e }
  | .negSucc e =>
    let by10 := Nat.pow 10 (e + 1)
    { i with low := i.low * by10, value := i.value * by10, high := i.high * by10 }

/-- Whether the whole number `n` lies in the interval. -/
def contains (i : RoundingInterval) (n : Nat) : Bool :=
  let x := n * i.unit
  if i.closed then i.low ≤ x && x ≤ i.high else i.low < x && x < i.high

end RoundingInterval

end TensorKernel
