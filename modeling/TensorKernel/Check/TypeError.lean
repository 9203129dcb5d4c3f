import TensorKernel.Fault
import TensorKernel.Operator
import TensorKernel.Storage
import TensorKernel.VectorType

/-!
# Type errors

Everything that can be wrong with the types of a kernel, each error with what
it is about. `TypeError.message` is the one place where errors are put into
words, and `TypeError.help?` says what can be done about those that have an
obvious remedy.

A conversion that may lose precision (`PrecisionLoss`) is an error only if the
settings deny it; otherwise the same words make a warning.
-/

namespace TensorKernel

/-- The accesses that a rule names in its messages. -/
inductive Access where
  | localLoad | localStore | globalStore | atomic
  deriving DecidableEq

def Access.name : Access → String
  | localLoad => "local load"
  | localStore => "local store"
  | globalStore => "global store"
  | atomic => "atomic operation"

/-- An access that converts a value of one element type to another. -/
structure PrecisionLoss where
  access : Access
  target : ElementType
  value : ElementType
  deriving DecidableEq

def PrecisionLoss.message (l : PrecisionLoss) : String :=
  l.access.name ++ " may lose precision: " ++ l.target.name ++ " <- " ++ l.value.name

inductive TypeError where
  | operandMismatch (lhs rhs : VectorType)
  | ambiguousOperands (op : BinaryOp)
  | bitwiseNonIntegral (op : BinaryOp) (elem : ElementType)
  | realOnly (op : UnaryOp) (elem : ElementType)
  | indexArity (node : NodeKind) (expected found : Nat)
  | nonIntegralIndex (position : Nat) (elem : ElementType)
  | indexWidth (position width expected : Nat)
  | noStorageNodes
  | selectCondition (elem : ElementType)
  | selectWidth (cond onTrue onFalse : Nat)
  | unsupportedTernary (op : TernaryOp)
  | nonScalar (access : Access) (width : Nat)
  | emptyShuffle
  | noBasePointers
  | rangeAssumptionMismatch (input base : VectorType)
  | argOutOfRange (arg count : Nat)
  | loadFromReturnSlot (arg : Nat)
  | storeToParameter (arg : Nat)
  | returnTypeMismatch (arg : Nat) (expected found : ElementType)
  | precisionLoss (loss : PrecisionLoss)
  | unresolved (stmt : StmtId)
  deriving DecidableEq

namespace TypeError

def message : TypeError → String
  | operandMismatch lhs rhs =>
    "type mismatch (left = " ++ lhs.text ++ ", right = " ++ rhs.text ++ ")"
  | ambiguousOperands op =>
    "cannot infer operand types of `" ++ op.name ++ "`: both operands are unknown"
  | bitwiseNonIntegral op elem =>
    "bitwise operation `" ++ op.name ++ "` can only apply to integral types, got " ++ elem.name
  | realOnly op elem => "`" ++ op.name ++ "` takes real inputs only, got " ++ elem.name
  | indexArity node expected found =>
    node.name ++ " has " ++ toString expected ++ " indices, indexed with " ++ toString found
  | nonIntegralIndex position elem =>
    "tensors must be accessed with integral indices, index " ++ toString position ++ " is "
      ++ elem.name
  | indexWidth position width expected =>
    "index " ++ toString position ++ " has width " ++ toString width ++ ", expected "
      ++ toString expected
  | noStorageNodes => "global pointer addresses no storage node"
  | selectCondition elem => "select condition must be i32, got " ++ elem.name
  | selectWidth cond onTrue onFalse =>
    "select operands must share vector width (condition x" ++ toString cond ++ ", true x"
      ++ toString onTrue ++ ", false x" ++ toString onFalse ++ ")"
  | unsupportedTernary op => "ternary operator `" ++ op.name ++ "` is not implemented"
  | nonScalar access width => access.name ++ " requires vector width 1, got " ++ toString width
  | emptyShuffle => "element shuffle has no source elements"
  | noBasePointers => "external pointer has no base pointers"
  | rangeAssumptionMismatch input base =>
    "range assumption input (" ++ input.text ++ ") does not match its bound (" ++ base.text ++ ")"
  | argOutOfRange arg count =>
    "argument " ++ toString arg ++ " out of range (kernel takes " ++ toString count ++ ")"
  | loadFromReturnSlot arg =>
    "argument " ++ toString arg ++ " is a return value and cannot be loaded"
  | storeToParameter arg =>
    "argument " ++ toString arg ++ " is not a return value and cannot be stored to"
  | returnTypeMismatch arg expected found =>
    "return value " ++ toString arg ++ " is declared " ++ expected.name ++ ", stored "
      ++ found.name
  | precisionLoss loss => loss.message
  | unresolved stmt => "type of " ++ stmtRef stmt ++ " could not be inferred"

/-- What to do about an error, where there is an obvious remedy. -/
def help? : TypeError → Option String
  | nonIntegralIndex _ _ =>
    some ("cast the index to an integer (e.g. i32); "
      ++ "note that floor on a float still returns a float")
  | bitwiseNonIntegral _ _ => some "cast both operands to an integer type first"
  | realOnly _ _ => some "cast the operand to a floating-point type first"
  | precisionLoss _ => some "add an explicit cast, or set typecheck.narrowing = \"warn\""
  | ambiguousOperands _ | unresolved _ =>
    some "the value is never assigned a typed value before it is used"
  | _ => none

end TypeError

end TensorKernel
