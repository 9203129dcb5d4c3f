import TensorKernel.Check.State

/-!
# Typing rules for values

The rules for operators, shuffles and range assumptions. Each rule reads the
types of the operands, brings the operands to a common element type by
conversions where it may, and sets the type of the instruction. Widths are
never changed by a conversion: operands of different widths are an error.
-/

namespace TensorKernel

/-- The result of a unary operator has its operand's type, except that a
conversion has its own element type. -/
def UnaryOp.resultType (operand : VectorType) : UnaryOp → VectorType
  | .cast target _ => ⟨operand.width, target⟩
  | _ => operand

/-- The result of a comparison is `i32` in each lane; any other binary operator
gives its operands' type. -/
def BinaryOp.resultType (operands : VectorType) (op : BinaryOp) : VectorType :=
  if op.isComparison then ⟨operands.width, .i32⟩ else operands

/-- How a division is lowered: the type its operands are brought to, unless they
are of the right class already. Other operators are left as they are. -/
def BinaryOp.lowering? (config : Config) :
    BinaryOp → Option (ElementType × (ElementType → Bool))
  | .floorDiv => some (config.defaultInt, ElementType.isIntegral)
  | .trueDiv => some (config.defaultFloat, ElementType.isReal)
  | _ => none

namespace Checker

def checkUnary (id : StmtId) (op : UnaryOp) (operand : StmtId) : Checker Unit := do
  let type ← typeOf operand
  if op.requiresReal && !type.elem.isReal then
    stopAt id (.realOnly op type.elem)
  setType id (op.resultType type)

/-- Brings an operand of a division to `target`, unless its type is accepted as it
is. The conversion follows the operand. -/
def coerce (target : ElementType) (accepts : ElementType → Bool) (operand : StmtId) :
    Checker StmtId := do
  if accepts (← elemOf operand) then return operand
  else insertCast .after operand operand target

/-- Brings an operand to `target` by a conversion right before the instruction. -/
def convert (id operand : StmtId) (elem target : ElementType) : Checker StmtId :=
  if elem = target then return operand else insertCast .before id operand target

/-- **Binary operators.** Divisions are lowered first. Then both operands are
brought to their common type and the instruction is pointed at what came of
them. Only then are they compared: after promotion they differ exactly if their
widths do.

The right operand is not looked at before it is needed. If the left one is
known, that is after the left one has been lowered, and a right operand that did
not exist before may be the conversion which the lowering has made. -/
def checkBinary (config : Config) (id : StmtId) (op : BinaryOp) (lhs rhs : StmtId) :
    Checker Unit := do
  if (← elemOf lhs).isUnknown then
    if (← elemOf rhs).isUnknown then
      stopAt id (.ambiguousOperands op)
  let (op, lhs, rhs) ← match op.lowering? config with
    | some (target, accepts) => do
      let lhs ← coerce target accepts lhs
      let rhs ← coerce target accepts rhs
      pure (BinaryOp.div, lhs, rhs)
    | none => pure (op, lhs, rhs)
  let lhsElem ← elemOf lhs
  let rhsElem ← elemOf rhs
  let common := ElementType.promote lhsElem rhsElem
  let lhs ← convert id lhs lhsElem common
  let rhs ← convert id rhs rhsElem common
  setInstr id (.binary op lhs rhs)
  let lhsType ← typeOf lhs
  let rhsType ← typeOf rhs
  if lhsType ≠ rhsType ∨ lhsType.isUnknown then
    stopAt id (.operandMismatch lhsType rhsType)
  if op.isBitwise && !lhsType.elem.isIntegral then
    stopAt id (.bitwiseNonIntegral op lhsType.elem)
  setType id (op.resultType lhsType)

/-- **Selection.** The condition has to be `i32`, all three operands have to be
equally wide, and the branches are brought to their common type. The other
ternary operator is refused before its operands are looked at. -/
def checkTernary (id : StmtId) (op : TernaryOp) (cond onTrue onFalse : StmtId) :
    Checker Unit := do
  if op = .ifte then
    stopAt id (.unsupportedTernary op)
  let condType ← typeOf cond
  let trueType ← typeOf onTrue
  let falseType ← typeOf onFalse
  if condType.elem ≠ .i32 then
    stopAt id (.selectCondition condType.elem)
  if condType.width ≠ trueType.width ∨ trueType.width ≠ falseType.width then
    stopAt id (.selectWidth condType.width trueType.width falseType.width)
  let common := ElementType.promote trueType.elem falseType.elem
  let onTrue ← convert id onTrue trueType.elem common
  let onFalse ← convert id onFalse falseType.elem common
  setInstr id (.ternary op cond onTrue onFalse)
  setType id ⟨condType.width, common⟩

/-- A shuffle has the element type of its first source. It keeps the width that
it was given, however many lanes it has. -/
def checkShuffle (id : StmtId) : List Lane → Checker Unit
  | [] => stopAt id .emptyShuffle
  | first :: _ => do setElem id (← elemOf first.stmt)

def checkRangeAssumption (id input base : StmtId) : Checker Unit := do
  let inputType ← typeOf input
  let baseType ← typeOf base
  if inputType ≠ baseType then
    stopAt id (.rangeAssumptionMismatch inputType baseType)
  setType id inputType

end Checker

end TensorKernel
