/-!
# Source spans

A half-open range of character offsets in one source file. The dummy span, at
the very start of a file and empty, stands for "no place in the source".
-/

namespace TensorKernel

/-- The characters from `start` up to `stop` of file number `file`. -/
structure Span where
  file : Nat := 0
  start : Nat := 0
  stop : Nat := 0
  deriving DecidableEq

namespace Span

/-- The span of what has no place in the source. -/
def dummy : Span := {}

/-- A span counts as a dummy whatever its file: only its offsets are looked at. -/
def isDummy (s : Span) : Bool := s.start == 0 && s.stop == 0

/-- File number and offsets, as in `0:3..7`. -/
def text (s : Span) : String :=
  toString s.file ++ ":" ++ toString s.start ++ ".." ++ toString s.stop

@[simp] theorem dummy_isDummy : dummy.isDummy = true := rfl

end Span

end TensorKernel
