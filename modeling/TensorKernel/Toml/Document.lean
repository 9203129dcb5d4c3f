import TensorKernel.Toml.DateTime
import TensorKernel.Toml.Table

/-!
# Documents

A document is a list of definitions, one to a line, followed by sections, each
of which is a header and a list of definitions. Values may be nested in arrays
and tables in braces, though not deeper than `maxNesting`.

`Table.ofText?` reads a document and puts its definitions together into one
table. It fails if the text is no document, and also if its definitions
contradict one another.
-/

namespace TensorKernel.Toml

open Reader

/-! ### Values -/

/-- A value that holds no other values. -/
def scalar : Reader Item :=
  (do return .string (← string))
    <|> (do text "true"; return .boolean true)
    <|> (do text "false"; return .boolean false)
    <|> (do dateTime; return .dateTime)
    <|> (do float; return .float)
    <|> (do return .integer (← integer))

/-- Values in brackets; there may be a comma after the last one. -/
def array (value : Reader Item) : Reader Item := do
  char '['
  let items ← separated (gap *> value <* gap) (char ',')
  if !items.isEmpty then
    let _ ← optional (char ',')
  gap
  char ']'
  return .array items

/-- A name and its value. -/
def pair (value : Reader Item) : Reader (Table.Key × Item) := do
  let key ← dottedKey
  char '='
  blanks
  return (key, ← value)

/-- Definitions in braces, on one line and without a comma after the last one. -/
def inlineTable (value : Reader Item) : Reader Item := do
  char '\x7b'
  let pairs ← separated (pair value <* blanks) (char ',')
  blanks
  char '\x7d'
  return .table (← ofOption ((Table.blank .inline).defineAll pairs))

/-- A value with at most so many arrays and tables around one another. -/
def value : Nat → Reader Item
  | 0 => scalar
  | nesting + 1 => scalar <|> array (value nesting) <|> inlineTable (value nesting)

/-- How deep values may be nested. -/
def maxNesting : Nat := 79

/-! ### Lines -/

/-- A definition on a line of its own. -/
def definition : Reader (Table.Key × Item) := do
  emptyLines
  pair (value maxNesting) <* lineEnd

/-- A header: whether it is one of an array of tables, and its key. -/
def header : Reader (Bool × Table.Key) := do
  emptyLines
  let element := do
    text "[["
    return (true, ← dottedKey <* text "]]")
  let table := do
    char '['
    return (false, ← dottedKey <* char ']')
  (element <|> table) <* lineEnd

def tableSection : Reader Table.Section := do
  let (isElement, key) ← header
  return ⟨isElement, key, ← many definition⟩

/-- The definitions of a document and its sections. A byte order mark may stand
in front. -/
def document : Reader (List (Table.Key × Item) × List Table.Section) := do
  let _ ← optional (char '\ufeff')
  let pairs ← many definition
  let sections ← many tableSection
  emptyLines
  let _ ← optional comment
  atEnd
  return (pairs, sections)

/-- The table that a text describes. -/
def Table.ofText? (s : String) : Option Table := do
  let ((pairs, sections), _) ← document s.toList
  let root ← (blank .header).defineAll pairs
  sections.foldlM addSection root

end TensorKernel.Toml
