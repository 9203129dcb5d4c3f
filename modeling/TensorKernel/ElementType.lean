/-!
# Element types

The scalar types a kernel computes with: signed and unsigned integers of four
widths, three floating-point formats, and `unknown`, the type of a value that
no rule has typed yet. Each element type is in exactly one of three classes —
integral, real, unknown — and everything the checker asks of a type is its
class, its signedness or its width in bits.
-/

namespace TensorKernel

/-- The element type of a value; `unknown` marks a value that is not typed yet. -/
inductive ElementType where
  | i8 | i16 | i32 | i64
  | u8 | u16 | u32 | u64
  | f16 | f32 | f64
  | unknown
  deriving DecidableEq

namespace ElementType

/-- Every element type, in index order. -/
def all : List ElementType :=
  [i8, i16, i32, i64, u8, u16, u32, u64, f16, f32, f64, unknown]

/-- The position of an element type in `all`. -/
def index (t : ElementType) : Nat := all.idxOf t

/-! ### Classes -/

def isSigned : ElementType → Bool
  | i8 | i16 | i32 | i64 => true
  | _ => false

def isUnsigned : ElementType → Bool
  | u8 | u16 | u32 | u64 => true
  | _ => false

def isIntegral (t : ElementType) : Bool := t.isSigned || t.isUnsigned

def isReal : ElementType → Bool
  | f16 | f32 | f64 => true
  | _ => false

def isUnknown : ElementType → Bool
  | unknown => true
  | _ => false

@[simp] theorem isUnknown_iff (t : ElementType) : t.isUnknown = true ↔ t = unknown := by
  cases t <;> decide

/-- **The classes are a partition**: a type that is not real is integral exactly
when it is known, and no real type is integral. -/
theorem isIntegral_eq (t : ElementType) : t.isIntegral = (!t.isReal && !t.isUnknown) := by
  cases t <;> decide

/-! ### Widths -/

/-- The width of one element in bits; an unknown element has none. -/
def bits : ElementType → Nat
  | i8 | u8 => 8
  | i16 | u16 | f16 => 16
  | i32 | u32 | f32 => 32
  | i64 | u64 | f64 => 64
  | unknown => 0

/-- The signed integer type of a given width, where there is one. -/
def signedOfBits? : Nat → Option ElementType
  | 8 => some i8
  | 16 => some i16
  | 32 => some i32
  | 64 => some i64
  | _ => none

/-! ### Names -/

/-- The name under which a type is printed and read. -/
def name : ElementType → String
  | i8 => "i8"
  | i16 => "i16"
  | i32 => "i32"
  | i64 => "i64"
  | u8 => "u8"
  | u16 => "u16"
  | u32 => "u32"
  | u64 => "u64"
  | f16 => "f16"
  | f32 => "f32"
  | f64 => "f64"
  | unknown => "unknown"

/-- The type of a given name, spelled exactly as `name` spells it. -/
def ofName? (s : String) : Option ElementType := all.find? (·.name == s)

@[simp] theorem ofName?_name (t : ElementType) : ofName? t.name = some t := by
  cases t <;> rfl

end ElementType

end TensorKernel
