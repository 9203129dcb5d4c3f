import TensorKernel.ElementType

/-!
# Operators

The operators that instructions carry. Each family is a closed type with one
`name` per operator, which is how the operator is printed. The classes the type
rules ask about stand beside the family: which unary operators want a real
operand, which binary operators are bitwise or comparisons.
-/

namespace TensorKernel

/-! ### Unary operators -/

inductive UnaryOp where
  | neg | sqrt | floor | ceil
  /-- Conversion to another element type: of the numeric value, or, if not
  `byValue`, of the bits. -/
  | cast (target : ElementType) (byValue : Bool)
  | abs | sgn
  | sin | asin | cos | acos | tan | tanh
  | inv | rcp | exp | log | rsqrt
  | bitNot | logicNot
  deriving DecidableEq

namespace UnaryOp

/-- Every unary operator but the casts. -/
def plain : List UnaryOp :=
  [neg, sqrt, floor, ceil, abs, sgn, sin, asin, cos, acos, tan, tanh, inv, rcp, exp, log,
    rsqrt, bitNot, logicNot]

def isTrigonometric : UnaryOp → Bool
  | sin | asin | cos | acos | tan | tanh => true
  | _ => false

/-- Operators that are defined on floating-point operands only. -/
def requiresReal : UnaryOp → Bool
  | floor | ceil => true
  | op => op.isTrigonometric

def name : UnaryOp → String
  | neg => "neg"
  | sqrt => "sqrt"
  | floor => "floor"
  | ceil => "ceil"
  | cast target true => "cast_value<" ++ target.name ++ ">"
  | cast target false => "cast_bits<" ++ target.name ++ ">"
  | abs => "abs"
  | sgn => "sgn"
  | sin => "sin"
  | asin => "asin"
  | cos => "cos"
  | acos => "acos"
  | tan => "tan"
  | tanh => "tanh"
  | inv => "inv"
  | rcp => "rcp"
  | exp => "exp"
  | log => "log"
  | rsqrt => "rsqrt"
  | bitNot => "bit_not"
  | logicNot => "logic_not"

/-- The operator of a given name, other than a cast. -/
def ofName? (s : String) : Option UnaryOp := plain.find? (·.name == s)

end UnaryOp

/-! ### Binary operators -/

inductive BinaryOp where
  | mul | add | sub
  /-- Division of any operands as reals; lowered to `div`. -/
  | trueDiv
  /-- Division of any operands as integers; lowered to `div`. -/
  | floorDiv
  | div | mod | max | min
  | bitAnd | bitOr | bitXor
  | cmpLt | cmpLe | cmpGt | cmpGe | cmpEq | cmpNe
  | atan2 | pow
  deriving DecidableEq

namespace BinaryOp

def all : List BinaryOp :=
  [mul, add, sub, trueDiv, floorDiv, div, mod, max, min, bitAnd, bitOr, bitXor, cmpLt, cmpLe,
    cmpGt, cmpGe, cmpEq, cmpNe, atan2, pow]

def isBitwise : BinaryOp → Bool
  | bitAnd | bitOr | bitXor => true
  | _ => false

def isComparison : BinaryOp → Bool
  | cmpLt | cmpLe | cmpGt | cmpGe | cmpEq | cmpNe => true
  | _ => false

def name : BinaryOp → String
  | mul => "mul"
  | add => "add"
  | sub => "sub"
  | trueDiv => "truediv"
  | floorDiv => "floordiv"
  | div => "div"
  | mod => "mod"
  | max => "max"
  | min => "min"
  | bitAnd => "bit_and"
  | bitOr => "bit_or"
  | bitXor => "bit_xor"
  | cmpLt => "cmp_lt"
  | cmpLe => "cmp_le"
  | cmpGt => "cmp_gt"
  | cmpGe => "cmp_ge"
  | cmpEq => "cmp_eq"
  | cmpNe => "cmp_ne"
  | atan2 => "atan2"
  | pow => "pow"

def ofName? (s : String) : Option BinaryOp := all.find? (·.name == s)

@[simp] theorem ofName?_name (op : BinaryOp) : ofName? op.name = some op := by
  cases op <;> rfl

/-- No operator is both a bitwise operator and a comparison. -/
theorem isBitwise_and_isComparison (op : BinaryOp) :
    (op.isBitwise && op.isComparison) = false := by
  cases op <;> rfl

end BinaryOp

/-! ### Ternary, atomic, storage and task operators -/

inductive TernaryOp where
  /-- Both branches are evaluated and one is taken, lane by lane. -/
  | select
  /-- Only the branch that is taken is evaluated; no type rule covers it. -/
  | ifte
  deriving DecidableEq

namespace TernaryOp

def all : List TernaryOp := [select, ifte]

def name : TernaryOp → String
  | select => "select"
  | ifte => "ifte"

def ofName? (s : String) : Option TernaryOp := all.find? (·.name == s)

end TernaryOp

/-- Read-modify-write operators. -/
inductive AtomicOp where
  | add | sub | max | min | bitAnd | bitOr | bitXor
  deriving DecidableEq

namespace AtomicOp

def all : List AtomicOp := [add, sub, max, min, bitAnd, bitOr, bitXor]

def name : AtomicOp → String
  | add => "add"
  | sub => "sub"
  | max => "max"
  | min => "min"
  | bitAnd => "bit_and"
  | bitOr => "bit_or"
  | bitXor => "bit_xor"

def ofName? (s : String) : Option AtomicOp := all.find? (·.name == s)

end AtomicOp

/-- Structural queries and updates of a storage node. -/
inductive StorageOp where
  | isActive | activate | deactivate | append | length
  deriving DecidableEq

namespace StorageOp

def all : List StorageOp := [isActive, activate, deactivate, append, length]

def name : StorageOp → String
  | isActive => "is_active"
  | activate => "activate"
  | deactivate => "deactivate"
  | append => "append"
  | length => "length"

def ofName? (s : String) : Option StorageOp := all.find? (·.name == s)

end StorageOp

/-- The kind of work that an offloaded task does. -/
inductive Task where
  | serial | rangeFor | structFor | listGen | gc
  deriving DecidableEq

namespace Task

def all : List Task := [serial, rangeFor, structFor, listGen, gc]

def name : Task → String
  | serial => "serial"
  | rangeFor => "range_for"
  | structFor => "struct_for"
  | listGen => "listgen"
  | gc => "gc"

def ofName? (s : String) : Option Task := all.find? (·.name == s)

end Task

end TensorKernel
