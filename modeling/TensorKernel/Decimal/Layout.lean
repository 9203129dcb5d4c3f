import TensorKernel.Decimal.Shortest

/-!
# Layout of decimals

How the digits of a number are put on paper is a choice of whoever prints it: a
`DecimalLayout` says which numbers are written out place by place, and all
others are written with an exponent. In positional form there is always a digit
after the point, so that the text of a whole number still reads as a
floating-point one; in exponent form the point is left out when there is a
single digit, and the exponent is written without padding and without a plus.
-/

namespace TensorKernel

/-- Numbers whose leading digit counts `10 ^ e` with `least ≤ e ≤ greatest` are
written positionally. -/
structure DecimalLayout where
  least : Int
  greatest : Int
  deriving DecidableEq

namespace DecimalLayout

private def zeros (n : Nat) : List Char := List.replicate n '0'

/-- The digits with a point at their place. -/
def positional (d : Decimal) : List Char :=
  match d.lead with
  | .ofNat e =>
    let places := d.digits ++ zeros (e + 1 - d.digits.length)
    let fraction := places.drop (e + 1)
    places.take (e + 1) ++ '.' :: (if fraction.isEmpty then ['0'] else fraction)
  | .negSucc e => '0' :: '.' :: zeros e ++ d.digits

/-- The digits with a point after the first, and a power of ten. -/
def scientific (d : Decimal) : List Char :=
  let point := if d.digits.length > 1 then ['.'] else []
  d.digits.take 1 ++ point ++ d.digits.drop 1 ++ 'e' :: (toString d.lead).toList

/-- The text of a floating-point number of the given format and bits. -/
def text (l : DecimalLayout) (f : BinaryFormat) (bits : Nat) : String :=
  let sign (negative : Bool) : String := if negative then "-" else ""
  match BinaryDatum.ofBits f bits with
  | .nan => "NaN"
  | .infinite negative => sign negative ++ "inf"
  | .finite negative 0 _ => sign negative ++ "0.0"
  | .finite negative significand scale =>
    let d := (RoundingInterval.ofFinite f significand scale).shortest
    let written := if l.least ≤ d.lead && d.lead ≤ l.greatest then positional d else scientific d
    sign negative ++ String.ofList written

end DecimalLayout

end TensorKernel
