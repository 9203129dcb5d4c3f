/-!
# Readers

A `Reader` reads something off the front of a text and leaves the rest, or
fails. Readers are put together in sequence by `do` and as alternatives by
`<|>`, which tries the second alternative from where the first one started.

Repetition (`Reader.many`) is where reading could go on forever: it stops at
the first try that fails or that takes nothing away. As every other try takes
something away, there are at most as many as there are characters.
-/

namespace TensorKernel.Toml

abbrev Reader := StateT (List Char) Option

namespace Reader

/-- A character of a class. -/
def satisfy (p : Char → Bool) : Reader Char := fun
  | c :: rest => if p c then some (c, rest) else none
  | [] => none

def char (c : Char) : Reader Unit := do let _ ← satisfy (· == c)

/-- A fixed text. -/
def text (s : String) : Reader Unit := s.toList.forM char

/-- The longest run of characters of a class, perhaps empty. -/
def run (p : Char → Bool) : Reader (List Char) := fun s => some (s.span p)

/-- The end of the text. -/
def atEnd : Reader Unit := fun
  | [] => some ((), [])
  | _ :: _ => none

/-- At most `tries` readings, one after the other. -/
def manyUpTo {α : Type} (p : Reader α) : Nat → List Char → List α × List Char
  | 0, s => ([], s)
  | tries + 1, s =>
    match p s with
    | none => ([], s)
    | some (a, rest) =>
      if rest.length < s.length then
        let (as, rest) := manyUpTo p tries rest
        (a :: as, rest)
      else ([], s)

/-- As many readings as there are. -/
def many {α : Type} (p : Reader α) : Reader (List α) := fun s => some (manyUpTo p s.length s)

/-- Readings with separators between them, perhaps none. -/
def separated {α : Type} (p : Reader α) (separator : Reader Unit) : Reader (List α) := do
  match ← optional p with
  | none => return []
  | some first => return first :: (← many (separator *> p))

/-- Fails unless there is an answer. -/
def ofOption {α : Type} (a : Option α) : Reader α := StateT.lift a

/-- A reading that has to pass a test. -/
def verified {α : Type} (p : Reader α) (test : α → Bool) : Reader α := do
  let a ← p
  if test a then return a else failure

/-- Exactly `n` characters of a class. -/
def exactly (n : Nat) (p : Char → Bool) : Reader (List Char) :=
  match n with
  | 0 => return []
  | n + 1 => do return (← satisfy p) :: (← exactly n p)

end Reader

/-! ### Blanks, line ends and comments -/

open Reader

def isTomlBlank (c : Char) : Bool := c == ' ' || c == '\t'

/-- Characters that may stand on a line: no control characters but the tab. -/
def isOnLine (c : Char) : Bool := c == '\t' || (' ' ≤ c && c ≤ '~') || '\u0080' ≤ c

def blanks : Reader Unit := do let _ ← run isTomlBlank

/-- A line end is LF or CR LF; CR alone is none. -/
def newline : Reader Unit := char '\n' <|> text "\r\n"

def comment : Reader Unit := do
  char '#'
  let _ ← run isOnLine

/-- What may follow on a line when all has been said: blanks and a comment. -/
def lineEnd : Reader Unit := do
  blanks
  let _ ← optional comment
  newline <|> atEnd

/-- Lines that say nothing, and the blanks before something that does. -/
def emptyLines : Reader Unit := do
  let _ ← many (blanks *> optional comment *> newline)
  blanks

/-- What may stand between the elements of an array: blanks, line ends and comments. -/
def gap : Reader Unit := do
  let _ ← many ((do let _ ← satisfy isTomlBlank) <|> newline <|> comment)

end TensorKernel.Toml
