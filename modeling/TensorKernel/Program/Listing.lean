import TensorKernel.Program.Walk

/-!
# Listings

A program is listed one instruction to a line. The blocks nested in an
instruction follow it in braces, indented one step deeper, and a second block
is set off from the first by an `else`.

A listing is first a list of `Line`s, each with its depth, and only then text,
so that its order and its indentation can be spoken of without reading text
back.
-/

namespace TensorKernel

/-- A line of a listing and how many blocks it is nested in. -/
structure Line where
  depth : Nat
  text : String
  deriving DecidableEq

/-- The line with its indentation, two spaces for each enclosing block, and its end. -/
def Line.render (l : Line) : String := String.join (List.replicate l.depth "  ") ++ l.text ++ "\n"

namespace Program

/-- An instruction's line, followed by the listings of its blocks in braces. -/
def frame (depth : Nat) (head : String) : List (List Line) → List Line
  | [] => [⟨depth, head⟩]
  | first :: others =>
    ⟨depth, head ++ " \x7b"⟩ :: first
      ++ others.flatMap (⟨depth, "\x7d else \x7b"⟩ :: ·)
      ++ [⟨depth, "\x7d"⟩]

/-- The lines of a block that is nested in `depth` others; nested blocks are
followed `bound` levels down. -/
def blockLines (p : Program) : (bound depth : Nat) → BlockId → Except Fault (List Line)
  | 0, _, _ => .error .endlessNesting
  | bound + 1, depth, id => do
    let b ← p.block id
    let parts ← b.stmts.mapM fun id => do
      let s ← p.stmt id
      let nested ← s.instr.blocks.mapM (p.blockLines bound (depth + 1))
      return frame depth s.text nested
    return parts.flatten

/-- The listing of everything reachable from the root. -/
def lines (p : Program) : Except Fault (List Line) := p.blockLines p.nestingBound 0 root

/-- The listing as text. -/
def listing (p : Program) : Except Fault String := do
  return String.join ((← p.lines).map Line.render)

end Program

end TensorKernel
