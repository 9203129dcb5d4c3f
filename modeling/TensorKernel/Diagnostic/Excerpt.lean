import TensorKernel.Diagnostic
import TensorKernel.Diagnostic.SourceText

/-!
# Excerpts

A diagnostic shown in its source text. A title line gives severity and message.
Below it, in a frame of line-drawing characters, stand the line that the span
starts on — with the span underlined and an arrow from its middle to the message
if the span ends on the same line, else with an arrow from the first line of the
span to the last — and then the help text and the last note.

```text
Error: message
   ╭─[file:1:5]
   │
 1 │ x = 3.9
   │     ─┬─
   │      ╰─── message (stmt $2)
   │
   │ Help: what to do
───╯
```

A span that does not lie in the text is shown by the title alone. A span that
ends before it starts is a `Fault`.
-/

namespace TensorKernel

namespace Excerpt

/-- The frame left of the text: as wide as the largest line number shown. -/
structure Gutter where
  width : Nat

namespace Gutter

def spaces (n : Nat) : List Char := List.replicate n ' '

/-- The gutter of a line that has no number, up to its frame. -/
def pad (g : Gutter) : List Char := spaces (g.width + 2)

/-- The gutter of a line that has no number, with its frame. -/
def margin (g : Gutter) : List Char := g.pad ++ "│ ".toList

/-- The gutter of the line of a given index, which is numbered from one. -/
def number (g : Gutter) (index : Nat) : List Char :=
  let digits := (toString (index + 1)).toList
  ' ' :: spaces (g.width - digits.length) ++ digits ++ " │ ".toList

/-- The last line of the frame. -/
def close (g : Gutter) : List Char := List.replicate (g.width + 2) '─' ++ ['╯']

end Gutter

/-- Where a label points: a line with its index, the columns from `first` up to
`last`, and the message. -/
structure Mark where
  line : SourceLine
  index : Nat
  first : Nat
  last : Nat
  message : List Char

namespace Mark

/-- The column in the middle, where the arrow starts. -/
def middle (m : Mark) (start stop : Nat) : Nat := (start + stop) / 2 - m.line.offset

/-- How many columns the two rows below the line have. -/
def columns (m : Mark) : List Nat := List.range (m.last + 2)

/-- The row that underlines the columns and starts the arrow. -/
def underline (m : Mark) (arrow : Nat) : List Char :=
  m.columns.flatMap fun c =>
    let width := m.line.cellWidth c
    let inside := m.first ≤ c && c < m.last
    if c = arrow then
      if inside then '┬' :: List.replicate (width - 1) '─'
      else '│' :: List.replicate (width - 1) ' '
    else List.replicate width (if inside then '─' else ' ')

/-- The row that leads the arrow to the message. -/
def arrowRow (m : Mark) (arrow : Nat) : List Char :=
  let row := m.columns.flatMap fun c =>
    let width := m.line.cellWidth c
    if c = arrow then '╰' :: List.replicate (width - 1) '─'
    else List.replicate width (if c > arrow then '─' else ' ')
  row ++ ' ' :: m.message

end Mark

/-- The rows of a span that starts and ends on one line. A span that ends
beyond that line's end — there is no later line — leaves only a frame. -/
def oneLine (g : Gutter) (line : SourceLine) (index : Nat) (span : Span) (message : List Char) :
    List (List Char) :=
  if span.stop ≤ line.offset + line.length then
    let mark : Mark :=
      ⟨line, index, span.start - line.offset, span.stop - line.offset, message⟩
    let arrow := mark.middle span.start span.stop
    [g.number index ++ line.shown, g.margin ++ mark.underline arrow,
      g.margin ++ mark.arrowRow arrow]
  else [g.margin]

/-- The rows of a span that starts on one line and ends on a later one. If it
ends at the very end of the text, the line it ends on is left out. -/
def severalLines (g : Gutter) (text : SourceText) (first last : SourceLine × Nat) (span : Span)
    (message : List Char) : List (List Char) :=
  let reachesEnd := text.size ≤ span.stop - 1
  let lastShown := if reachesEnd then last.2 + 1 else last.2
  let head := g.number first.2 ++ "╭─▶ ".toList ++ first.1.shown
  let gap := if lastShown - first.2 > 1 then [g.pad ++ "┆ ┆   ".toList] else []
  let tail :=
    if reachesEnd then []
    else
      let width := (List.range (last.1.length + 2)).foldr (last.1.cellWidth · + ·) 0
      [g.number last.2 ++ "├─▶ ".toList ++ last.1.shown,
        g.margin ++ "│   ".toList ++ Gutter.spaces width,
        g.margin ++ "╰───".toList ++ List.replicate width '─' ++ ' ' :: message]
  head :: gap ++ tail

/-- What stands left of help text and note: below a span of several lines there
is room for its bar, which is drawn only if the span starts right behind the
first line of the text. -/
def footMargin (g : Gutter) (text : SourceText) (several : Bool) (span : Span) : List Char :=
  if several then
    let behindFirst := text.lines.head?.any (·.length == span.start)
    g.margin ++ (if behindFirst then "│   ".toList else Gutter.spaces 4)
  else g.margin

end Excerpt

namespace Diagnostic

/-- The message as it stands at the arrow's end, with the instruction. -/
def label (d : Diagnostic) : String :=
  match d.stmt with
  | some id => d.message ++ " (stmt " ++ stmtRef id ++ ")"
  | none => d.message

/-- The rows of an excerpt below its title. -/
def excerptRows (d : Diagnostic) (fileName : String) (text : SourceText) : List (List Char) :=
  let span := d.span
  let first := text.lineAt? span.start
  let last := if span.start = span.stop then first else text.lineAt? (span.stop - 1)
  match first, last with
  | some first, some last =>
    let g : Excerpt.Gutter := ⟨(toString (last.2 + 1)).length⟩
    let place := fileName ++ ":" ++ toString (first.2 + 1) ++ ":"
      ++ toString (span.start - first.1.offset + 1)
    let several := first.2 != last.2
    let body :=
      if several then Excerpt.severalLines g text first last span d.label.toList
      else Excerpt.oneLine g first.1 first.2 span d.label.toList
    let foot := Excerpt.footMargin g text several span
    let remark (title : String) (content : Option String) : List (List Char) :=
      match content with
      | some content => [foot, foot ++ (title ++ content).toList]
      | none => []
    [g.pad ++ "╭─[".toList ++ place.toList ++ [']'], g.pad ++ ['│']] ++ body
      ++ remark "Help: " d.help ++ remark "Note: " d.notes.getLast? ++ [g.close]
  | _, _ => []

/-- The diagnostic shown in its source text. -/
def excerpt (d : Diagnostic) (fileName source : String) : Except Fault String :=
  if d.span.stop < d.span.start then .error .backwardSpan
  else
    let title := (d.severity.title ++ ": " ++ d.message).toList
    let rows := title :: d.excerptRows fileName (.ofString source)
    .ok (String.ofList (rows.flatMap (· ++ ['\n'])))

/-- Excerpts of several diagnostics in one source text. -/
def excerpts (ds : List Diagnostic) (fileName source : String) : Except Fault (List String) :=
  ds.mapM (·.excerpt fileName source)

end Diagnostic

end TensorKernel
