import TensorKernel.Instr

/-!
# The text of an instruction

An instruction is printed as its operator or mnemonic followed by its operands.
Lists are written in brackets with commas between their elements; nested blocks
are no part of the text.
-/

namespace TensorKernel

/-- The elements of a list with commas between them, in brackets. -/
def bracketed (items : List String) : String := "[" ++ ", ".intercalate items ++ "]"

def Lane.text (l : Lane) : String := stmtRef l.stmt ++ "[" ++ toString l.index ++ "]"

namespace Instr

def text : Instr → String
  | alloca => "alloca"
  | const value => "const " ++ value.text
  | branch cond _ _ => "if " ++ stmtRef cond
  | rangeFor first last _ => "range_for " ++ stmtRef first ++ ".." ++ stmtRef last
  | structFor node _ => "struct_for " ++ nodeRef node
  | whileLoop _ => "while"
  | localLoad slot => "local_load " ++ stmtRef slot
  | localStore slot value => "local_store " ++ stmtRef slot ++ " <- " ++ stmtRef value
  | globalLoad ptr => "global_load " ++ stmtRef ptr
  | globalStore ptr value => "global_store " ++ stmtRef ptr ++ " <- " ++ stmtRef value
  | atomic op dest value =>
    "atomic_" ++ op.name ++ " " ++ stmtRef dest ++ " " ++ stmtRef value
  | globalPtr nodes indices =>
    "global_ptr " ++ bracketed (nodes.map nodeRef) ++ " " ++ bracketed (indices.map stmtRef)
  | storageOp op node ptr value =>
    " ".intercalate ([op.name, nodeRef node] ++ (ptr.toList ++ value.toList).map stmtRef)
  | unary op operand => op.name ++ " " ++ stmtRef operand
  | binary op lhs rhs => op.name ++ " " ++ stmtRef lhs ++ " " ++ stmtRef rhs
  | ternary op first second third =>
    op.name ++ " " ++ stmtRef first ++ " " ++ stmtRef second ++ " " ++ stmtRef third
  | shuffle lanes => "shuffle " ++ bracketed (lanes.map Lane.text)
  | assumeInRange input base low high =>
    "assume_in_range " ++ stmtRef input ++ " " ++ stmtRef base
      ++ "+[" ++ toString low ++ ", " ++ toString high ++ ")"
  | argLoad arg => "arg_load " ++ toString arg
  | argStore arg value => "arg_store " ++ toString arg ++ " <- " ++ stmtRef value
  | externalPtr bases indices =>
    "external_ptr " ++ bracketed (bases.map stmtRef) ++ " " ++ bracketed (indices.map stmtRef)
  | loopIndex loop index => "loop_index " ++ stmtRef loop ++ " " ++ toString index
  | childPtr input inputNode child outputNode =>
    "get_ch " ++ stmtRef input ++ " " ++ nodeRef inputNode ++ "->" ++ toString child
      ++ " " ++ nodeRef outputNode
  | offloaded task _ => "offloaded " ++ task.name

end Instr

end TensorKernel
