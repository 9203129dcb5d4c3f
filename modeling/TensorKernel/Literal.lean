import TensorKernel.Decimal.Layout
import TensorKernel.VectorType

/-!
# Literals

The constants of a kernel. A floating-point literal is kept as its bits: the
checker never computes with it, two literals are the same exactly when their
bits are, and its text — the shortest decimal that reads back — is a function
of the bits.
-/

namespace TensorKernel

inductive Literal where
  | i32 (value : Int32)
  | i64 (value : Int64)
  | u32 (value : UInt32)
  | f32 (bits : UInt32)
  | f64 (bits : UInt64)
  deriving DecidableEq

namespace Literal

def elementType : Literal → ElementType
  | i32 _ => .i32
  | i64 _ => .i64
  | u32 _ => .u32
  | f32 _ => .f32
  | f64 _ => .f64

/-- Floating-point literals are written out from `0.0001` up to sixteen places
before the point. -/
def layout : DecimalLayout where
  least := -4
  greatest := 15

def text : Literal → String
  | i32 v => toString v.toInt
  | i64 v => toString v.toInt
  | u32 v => toString v.toNat
  | f32 bits => layout.text .binary32 bits.toNat
  | f64 bits => layout.text .binary64 bits.toNat

end Literal

end TensorKernel
