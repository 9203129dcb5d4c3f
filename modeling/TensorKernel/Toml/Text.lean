import TensorKernel.Toml.Reader

/-!
# Strings and keys

Strings come in four forms. Basic strings are in double quotes and may hold
escapes; literal strings are in apostrophes and are taken as they stand. Either
form may open and close with three quotes and then run over several lines: a
line end right after the opening is dropped, every other line end reads as LF,
and up to two quotes may stand next to the closing ones.

A key is a string of one line or a bare word, and a dotted key is several of
these with points between them.
-/

namespace TensorKernel.Toml

open Reader

/-! ### Escapes -/

def hexValue? (c : Char) : Option Nat :=
  if '0' ≤ c ∧ c ≤ '9' then some (c.toNat - '0'.toNat)
  else if 'a' ≤ c ∧ c ≤ 'f' then some (c.toNat - 'a'.toNat + 10)
  else if 'A' ≤ c ∧ c ≤ 'F' then some (c.toNat - 'A'.toNat + 10)
  else none

/-- The number that digits of a base write, most significant first. -/
def digitsValue (base : Nat) (digits : List Char) : Nat :=
  digits.foldl (fun n c => n * base + (hexValue? c).getD 0) 0

/-- A character given by its number in `n` hexadecimal digits; surrogates and
numbers beyond Unicode give none. -/
def codePoint (n : Nat) : Reader Char := do
  let digits ← exactly n fun c => (hexValue? c).isSome
  let value := digitsValue 16 digits
  if value.isValidChar then return Char.ofNat value else failure

/-- An escape, after its backslash. -/
def escape : Reader Char := do
  match ← satisfy fun _ => true with
  | 'b' => return '\x08'
  | 't' => return '\t'
  | 'n' => return '\n'
  | 'f' => return '\x0c'
  | 'r' => return '\r'
  | '"' => return '"'
  | '\\' => return '\\'
  | 'u' => codePoint 4
  | 'U' => codePoint 8
  | _ => failure

def isBasicChar (c : Char) : Bool := isOnLine c && c != '"' && c != '\\'

def isLiteralChar (c : Char) : Bool := isOnLine c && c != '\''

/-! ### Strings of one line -/

def basicString : Reader (List Char) := do
  char '"'
  let content ← many (satisfy isBasicChar <|> (char '\\' *> escape))
  char '"'
  return content

def literalString : Reader (List Char) := do
  char '\''
  let content ← run isLiteralChar
  char '\''
  return content

/-! ### Strings of several lines -/

/-- One or two quotes that do not close the string. -/
def innerQuotes (quote : Char) : Reader (List Char) :=
  verified (run (· == quote)) fun quotes => quotes.length = 1 || quotes.length = 2

/-- The closing quotes, with up to two more before them that belong to the string. -/
def closingQuotes (quote : Char) : Reader (List Char) := do
  let quotes ← verified (run (· == quote)) fun quotes => 3 ≤ quotes.length && quotes.length ≤ 5
  return quotes.drop 3

/-- A backslash at the end of a line, and all blanks and line ends after it. -/
def lineContinuation : Reader Unit := do
  char '\\'
  blanks
  newline
  let _ ← many ((do let _ ← satisfy isTomlBlank) <|> newline)

/-- A string of several lines between three quotes, made of `pieces`. -/
def linesString (quote : Char) (piece : Reader (List Char)) : Reader (List Char) := do
  text (String.ofList [quote, quote, quote])
  let _ ← optional newline
  let content ← many ((do newline; return ['\n']) <|> piece <|> innerQuotes quote)
  let last ← closingQuotes quote
  return content.flatten ++ last

def basicLines : Reader (List Char) :=
  linesString '"' <|
    (do return [← satisfy isBasicChar])
      <|> (do lineContinuation; return [])
      <|> (do char '\\'; return [← escape])

def literalLines : Reader (List Char) :=
  linesString '\'' do return [← satisfy isLiteralChar]

/-- A string of any form. -/
def string : Reader String := do
  return String.ofList (← basicLines <|> basicString <|> literalLines <|> literalString)

/-! ### Keys -/

def isBareKeyChar (c : Char) : Bool := c.isAlphanum || c == '_' || c == '-'

def simpleKey : Reader String := do
  let bare := verified (run isBareKeyChar) fun word => !word.isEmpty
  return String.ofList (← basicString <|> literalString <|> bare)

/-- Keys are at most this many words long, less one. -/
def maxKeyLength : Nat := 80

/-- A dotted key, as the words before the last one and the last one. -/
def dottedKey : Reader (List String × String) := do
  let words ← separated (blanks *> simpleKey <* blanks) (char '.')
  if words.length < maxKeyLength then
    ofOption (words.getLast?.map (words.dropLast, ·))
  else failure

end TensorKernel.Toml
