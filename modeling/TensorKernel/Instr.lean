import TensorKernel.Fault
import TensorKernel.Literal
import TensorKernel.Operator

/-!
# Instructions

The closed set of instructions a kernel is made of. An instruction refers to
other instructions by number and never holds them, so one value may feed any
number of consumers; a control instruction refers in the same way to the blocks
nested in it.

* `Instr.operands` lists the values an instruction reads, in operand order;
* `Instr.blocks` lists the blocks nested in it, in execution order;
* `Instr.mnemonic` is its short name.

Instructions of control, memory access and computation are told apart only by
these and by the typing rules.
-/

namespace TensorKernel

/-- One lane of a shuffle: lane `index` of the value of `stmt`. -/
structure Lane where
  stmt : StmtId
  index : Nat
  deriving DecidableEq

inductive Instr where
  /-- A local slot, typed by the first typed store into it. -/
  | alloca
  | const (value : Literal)
  | branch (cond : StmtId) (onTrue onFalse : Option BlockId)
  | rangeFor (first last : StmtId) (body : BlockId)
  | structFor (node : NodeId) (body : BlockId)
  | whileLoop (body : BlockId)
  | localLoad (slot : StmtId)
  | localStore (slot value : StmtId)
  | globalLoad (ptr : StmtId)
  | globalStore (ptr value : StmtId)
  /-- Read-modify-write of the element at `dest`; its result is the old element. -/
  | atomic (op : AtomicOp) (dest value : StmtId)
  /-- The address of a tensor element: one lane for each addressed node. -/
  | globalPtr (nodes : List NodeId) (indices : List StmtId)
  | storageOp (op : StorageOp) (node : NodeId) (ptr value : Option StmtId)
  | unary (op : UnaryOp) (operand : StmtId)
  | binary (op : BinaryOp) (lhs rhs : StmtId)
  | ternary (op : TernaryOp) (first second third : StmtId)
  | shuffle (lanes : List Lane)
  /-- `input`, which is known to lie from `base + low` up to `base + high`. -/
  | assumeInRange (input base : StmtId) (low high : Int)
  | argLoad (arg : Nat)
  | argStore (arg : Nat) (value : StmtId)
  /-- An address in memory that was handed to the kernel as arguments. -/
  | externalPtr (bases indices : List StmtId)
  | loopIndex (loop : StmtId) (index : Nat)
  | childPtr (input : StmtId) (inputNode : NodeId) (child : Nat) (outputNode : NodeId)
  | offloaded (task : Task) (body : Option BlockId)
  deriving DecidableEq

namespace Instr

/-- The values read by an instruction, in operand order. The loop a loop index
belongs to is no operand: the index does not read its value. -/
def operands : Instr → List StmtId
  | branch cond _ _ => [cond]
  | rangeFor first last _ => [first, last]
  | localLoad slot => [slot]
  | localStore slot value => [slot, value]
  | globalLoad ptr => [ptr]
  | globalStore ptr value => [ptr, value]
  | atomic _ dest value => [dest, value]
  | globalPtr _ indices => indices
  | storageOp _ _ ptr value => ptr.toList ++ value.toList
  | unary _ operand => [operand]
  | binary _ lhs rhs => [lhs, rhs]
  | ternary _ first second third => [first, second, third]
  | shuffle lanes => lanes.map Lane.stmt
  | assumeInRange input base _ _ => [input, base]
  | argStore _ value => [value]
  | externalPtr bases indices => bases ++ indices
  | childPtr input _ _ _ => [input]
  | alloca | const _ | structFor _ _ | whileLoop _ | argLoad _ | loopIndex _ _
  | offloaded _ _ => []

/-- The blocks nested in an instruction, in execution order. -/
def blocks : Instr → List BlockId
  | branch _ onTrue onFalse => onTrue.toList ++ onFalse.toList
  | rangeFor _ _ body => [body]
  | structFor _ body => [body]
  | whileLoop body => [body]
  | offloaded _ body => body.toList
  | _ => []

/-- The operands that have to carry a known element type once a kernel is
checked. A pointer handed to a storage operation is typed by its node and may
address a container, so it is exempt. -/
def typedOperands : Instr → List StmtId
  | storageOp _ _ _ value => value.toList
  | childPtr _ _ _ _ => []
  | instr => instr.operands

def isConst : Instr → Bool
  | const _ => true
  | _ => false

/-- Whether the instruction is a conversion of its operand's numeric value. -/
def isValueCast : Instr → Bool
  | unary (.cast _ true) _ => true
  | _ => false

def mnemonic : Instr → String
  | alloca => "alloca"
  | const _ => "const"
  | branch _ _ _ => "if"
  | rangeFor _ _ _ => "range_for"
  | structFor _ _ => "struct_for"
  | whileLoop _ => "while"
  | localLoad _ => "local_load"
  | localStore _ _ => "local_store"
  | globalLoad _ => "global_load"
  | globalStore _ _ => "global_store"
  | atomic _ _ _ => "atomic"
  | globalPtr _ _ => "global_ptr"
  | storageOp _ _ _ _ => "snode_op"
  | unary _ _ => "unary"
  | binary _ _ _ => "binary"
  | ternary _ _ _ _ => "ternary"
  | shuffle _ => "shuffle"
  | assumeInRange _ _ _ _ => "assume_in_range"
  | argLoad _ => "arg_load"
  | argStore _ _ => "arg_store"
  | externalPtr _ _ => "external_ptr"
  | loopIndex _ _ => "loop_index"
  | childPtr _ _ _ _ => "get_ch"
  | offloaded _ _ => "offloaded"

/-- The type an instruction's result has when the instruction is created:
constants arrive typed, everything else is unknown. -/
def initialType : Instr → VectorType
  | const value => .scalar value.elementType
  | _ => .unknown

/-- A typed operand is an operand. -/
theorem typedOperands_subset (i : Instr) : i.typedOperands ⊆ i.operands := by
  cases i <;> simp [typedOperands, operands]

end Instr

end TensorKernel
