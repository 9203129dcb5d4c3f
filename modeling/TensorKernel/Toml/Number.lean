import TensorKernel.Toml.Text

/-!
# Numbers

Integers are decimal, with a sign and without leading zeros, or hexadecimal,
octal or binary without a sign; they have to fit 64 bits. A floating-point
number is a decimal integer with a fraction, an exponent or both. Digits may be
grouped by underscores, one between two digits.

Of a floating-point number only whether it is one matters here: its value is
not kept. A number that is too large for 64 bits is refused if it is positive.
-/

namespace TensorKernel.Toml

open Reader

/-- Digits of a class, perhaps grouped by underscores; the answer is without these. -/
def digitRun (isDigit : Char → Bool) : Reader (List Char) := do
  let first ← satisfy isDigit
  let rest ← many (satisfy isDigit <|> (char '_' *> satisfy isDigit))
  return first :: rest

/-- Whether there is a minus sign; a plus sign may be there as well. -/
def sign : Reader Bool :=
  (do char '-'; return true) <|> (do char '+'; return false) <|> pure false

/-- Decimal digits without leading zeros. -/
def wholeDigits : Reader (List Char) :=
  (do char '0'; return ['0']) <|> digitRun Char.isDigit

/-- Digits of another base behind their mark. -/
def basedDigits (mark : String) (base : Nat) : Reader Int := do
  text mark
  let digits ← digitRun fun c => (hexValue? c).any (· < base)
  return digitsValue base digits

def decimalInteger : Reader Int := do
  let negative ← sign
  let value : Int := digitsValue 10 (← wholeDigits)
  return if negative then -value else value

def integer : Reader Int :=
  verified
    (basedDigits "0x" 16 <|> basedDigits "0o" 8 <|> basedDigits "0b" 2 <|> decimalInteger)
    fun n => -Int.pow 2 63 ≤ n && n < Int.pow 2 63

/-- Whether `mantissa * 10 ^ exponent` is nearer to `2 ^ 1024` than to any
number of 64 bits, or beyond. Numbers of fewer than 308 places are not, those
of more than 310 are; only those in between have to be computed. -/
def overflows (mantissa : Nat) (exponent : Int) : Bool :=
  let bound := Nat.pow 2 1024 - Nat.pow 2 970
  let places : Int := (Nat.toDigits 10 mantissa).length + exponent
  if mantissa = 0 || places < 308 then false
  else if places > 310 then true
  else match exponent with
    | .ofNat e => bound ≤ mantissa * Nat.pow 10 e
    | .negSucc e => bound * Nat.pow 10 (e + 1) ≤ mantissa

def fraction : Reader (List Char) := do
  char '.'
  digitRun Char.isDigit

def exponent : Reader Int := do
  char 'e' <|> char 'E'
  let negative ← sign
  let value : Int := digitsValue 10 (← digitRun Char.isDigit)
  return if negative then -value else value

/-- Infinity, or not a number. -/
def specialFloat : Reader Unit := do
  let _ ← sign
  text "inf" <|> text "nan"

def decimalFloat : Reader Unit := do
  let negative ← sign
  let whole ← wholeDigits
  let places ← optional fraction
  let power ← optional exponent
  if places.isNone && power.isNone then failure
  let places := places.getD []
  if !negative && overflows (digitsValue 10 (whole ++ places)) (power.getD 0 - places.length) then
    failure

def float : Reader Unit := decimalFloat <|> specialFloat

end TensorKernel.Toml
