/-!
# Source texts by line

A source text as an excerpt needs it: cut into lines, each with its offset in
characters. A line end belongs to the line that it ends, and the text after the
last line end, if there is any, is a line of its own; so the lines put together
are the text again (`flatten_cutLines`), and an empty text has no lines.

Line ends are those of Unicode, with CR LF as one; blanks are the characters of
Unicode's `White_Space` property.
-/

namespace TensorKernel

/-- The characters that end a line. -/
def isLineEnd (c : Char) : Bool :=
  c.val ∈ [0x0A, 0x0B, 0x0C, 0x0D, 0x85, 0x2028, 0x2029]

/-- The characters of the property `White_Space`. -/
def isBlank (c : Char) : Bool :=
  let n := c.val
  (0x09 ≤ n && n ≤ 0x0D) || (0x2000 ≤ n && n ≤ 0x200A)
    || n ∈ [0x20, 0x85, 0xA0, 0x1680, 0x2028, 0x2029, 0x202F, 0x205F, 0x3000]

/-- The lines of a text, each with its line end. -/
def cutLines : List Char → List (List Char)
  | [] => []
  | '\r' :: '\n' :: rest => ['\r', '\n'] :: cutLines rest
  | c :: rest =>
    if isLineEnd c then [c] :: cutLines rest
    else match cutLines rest with
      | [] => [[c]]
      | line :: lines => (c :: line) :: lines

/-- **No character is lost**: the lines put together are the text. -/
theorem flatten_cutLines (cs : List Char) : (cutLines cs).flatten = cs := by
  fun_induction cutLines cs <;> simp_all

/-- No line is empty. -/
theorem ne_nil_of_mem_cutLines {cs line : List Char} (h : line ∈ cutLines cs) : line ≠ [] := by
  fun_induction cutLines cs <;> grind

/-- A line of a source text. -/
structure SourceLine where
  /-- How many characters stand before the line. -/
  offset : Nat
  /-- The line with its line end. -/
  chars : List Char
  deriving DecidableEq

namespace SourceLine

/-- How many characters the line has, its line end counted. -/
def length (l : SourceLine) : Nat := l.chars.length

/-- The line without the blanks at its end. -/
def trimmed (l : SourceLine) : List Char := (l.chars.reverse.dropWhile isBlank).reverse

/-- Tab stops are four cells apart. -/
def tabWidth (column : Nat) : Nat := 4 - column % 4

/-- How many cells the character at a column takes when the line is shown. A
column past the end of what is shown takes one. -/
def cellWidth (l : SourceLine) (column : Nat) : Nat :=
  if l.trimmed[column]? = some '\t' then tabWidth column else 1

/-- The line as it is shown: tabs filled up with spaces, and any other blank as
one space. -/
def shown (l : SourceLine) : List Char :=
  l.trimmed.zipIdx.flatMap fun (c, column) =>
    if c = '\t' then List.replicate (tabWidth column) ' '
    else [if isBlank c then ' ' else c]

end SourceLine

/-- The lines of a source text, in order. -/
structure SourceText where
  lines : List SourceLine
  deriving DecidableEq

namespace SourceText

/-- Gives each line its offset, where the first one stands at `offset`. -/
def place (offset : Nat) : List (List Char) → List SourceLine
  | [] => []
  | line :: rest => ⟨offset, line⟩ :: place (offset + line.length) rest

def ofString (s : String) : SourceText := ⟨place 0 (cutLines s.toList)⟩

/-- How many characters the text has. -/
def size (t : SourceText) : Nat := t.lines.foldr (·.length + ·) 0

/-- The line that holds a character offset, and its index. The offset at the end
of the text is on the last line; one beyond it is on no line. -/
def lineAt? (t : SourceText) (offset : Nat) : Option (SourceLine × Nat) :=
  if t.size < offset then none
  else (t.lines.zipIdx.filter (·.1.offset ≤ offset)).getLast?

end SourceText

end TensorKernel
