import TensorKernel.Instr.Text
import TensorKernel.Span

/-!
# Programs

A `Program` holds the instructions of one kernel in an array, addressed by
number, and beside it the blocks that order them. A block is a list of
instruction numbers; every instruction remembers the block that owns it, so a
new instruction can be put next to any other. Block 0 is the root; every other
block starts detached and is adopted by the control instruction that nests it.

Programs only grow. Four operations add to one:

* `newBlock` adds an empty, detached block;
* `push` appends an instruction to a block;
* `insert` puts an instruction right before or right after another one;
* `setType` changes the type of an instruction's result.

`setInstr` replaces what an instruction does, and is used to point an
instruction at a converted operand.

A number that refers to nothing is a `Fault`, raised where it is followed: an
instruction may have operands that do not exist, but not nest a block that does
not exist, since creating it records it as the block's parent.
-/

namespace TensorKernel

/-- An instruction in its place in a program. -/
structure Stmt where
  id : StmtId
  span : Span
  /-- The type of the result. -/
  type : VectorType
  instr : Instr
  /-- The block that owns the instruction. -/
  block : BlockId
  deriving DecidableEq

/-- Type, number and text of an instruction, as in `<f32 x1> $2 = add $0 $1`. -/
def Stmt.text (s : Stmt) : String :=
  "<" ++ s.type.text ++ "> " ++ stmtRef s.id ++ " = " ++ s.instr.text

/-- An ordered list of instructions. -/
structure Block where
  stmts : List StmtId := []
  /-- The control instruction that adopted the block last. -/
  parent : Option StmtId := none
  deriving DecidableEq

/-- The instructions and blocks of one kernel, by number. -/
structure Program where
  stmts : Array Stmt
  blocks : Array Block
  deriving DecidableEq

namespace Program

def root : BlockId := 0

/-- The program that has only an empty root block. -/
def empty : Program := ⟨#[], #[{}]⟩

/-- The number of instructions, and so the number of the next one. -/
def size (p : Program) : Nat := p.stmts.size

/-! ### Following references -/

def stmt (p : Program) (id : StmtId) : Except Fault Stmt :=
  match p.stmts[id]? with
  | some s => .ok s
  | none => .error (.noStmt id)

def block (p : Program) (id : BlockId) : Except Fault Block :=
  match p.blocks[id]? with
  | some b => .ok b
  | none => .error (.noBlock id)

/-- The type of an instruction's result. -/
def typeOf (p : Program) (id : StmtId) : Except Fault VectorType := do
  return (← p.stmt id).type

theorem stmt_eq_ok_iff {p : Program} {id : StmtId} {s : Stmt} :
    p.stmt id = .ok s ↔ p.stmts[id]? = some s := by
  unfold stmt; split <;> simp_all

theorem block_eq_ok_iff {p : Program} {id : BlockId} {b : Block} :
    p.block id = .ok b ↔ p.blocks[id]? = some b := by
  unfold block; split <;> simp_all

/-! ### Changing what is there -/

/-- Changes one instruction in place. -/
def modifyStmt (p : Program) (id : StmtId) (f : Stmt → Stmt) : Except Fault Program := do
  let s ← p.stmt id
  return { p with stmts := p.stmts.setIfInBounds id (f s) }

/-- Changes one block in place. -/
def modifyBlock (p : Program) (id : BlockId) (f : Block → Block) : Except Fault Program := do
  let b ← p.block id
  return { p with blocks := p.blocks.setIfInBounds id (f b) }

def setType (p : Program) (id : StmtId) (type : VectorType) : Except Fault Program :=
  p.modifyStmt id ({ · with type })

/-- Sets the element type of a result and keeps its width. -/
def setElem (p : Program) (id : StmtId) (elem : ElementType) : Except Fault Program :=
  p.modifyStmt id fun s => { s with type := { s.type with elem } }

def setInstr (p : Program) (id : StmtId) (instr : Instr) : Except Fault Program :=
  p.modifyStmt id ({ · with instr })

/-! ### Growing -/

/-- Adds an empty block that no instruction nests yet. -/
def newBlock (p : Program) : Program × BlockId :=
  ({ p with blocks := p.blocks.push {} }, p.blocks.size)

/-- Records `owner` as the parent of each of the blocks. -/
def adopt (p : Program) (owner : StmtId) : List BlockId → Except Fault Program
  | [] => .ok p
  | b :: rest => do
    let p ← p.modifyBlock b ({ · with parent := some owner })
    p.adopt owner rest

/-- Adds an instruction owned by `block` without listing it there. -/
def alloc (p : Program) (block : BlockId) (instr : Instr) (span : Span) :
    Except Fault (Program × StmtId) := do
  let id := p.size
  let p ← p.adopt id instr.blocks
  return ({ p with stmts := p.stmts.push ⟨id, span, instr.initialType, instr, block⟩ }, id)

/-- Appends an instruction to a block. -/
def push (p : Program) (block : BlockId) (instr : Instr) (span : Span) :
    Except Fault (Program × StmtId) := do
  let (p, id) ← p.alloc block instr span
  let p ← p.modifyBlock block fun b => { b with stmts := b.stmts ++ [id] }
  return (p, id)

/-- On which side of an instruction a new one is put. -/
inductive Side where
  | before
  | after
  deriving DecidableEq

/-- The place of a new neighbour of the instruction at place `i`. -/
def Side.place : Side → Nat → Nat
  | before, i => i
  | after, i => i + 1

/-- The block that owns an instruction and the instruction's place in it. -/
def position (p : Program) (id : StmtId) : Except Fault (BlockId × Nat) := do
  let s ← p.stmt id
  let b ← p.block s.block
  match b.stmts.idxOf? id with
  | some i => return (s.block, i)
  | none => throw (.unlisted id)

/-- Puts an instruction right before or right after `anchor`, in its block. -/
def insert (p : Program) (side : Side) (anchor : StmtId) (instr : Instr) (span : Span) :
    Except Fault (Program × StmtId) := do
  let (block, i) ← p.position anchor
  let (p, id) ← p.alloc block instr span
  let p ← p.modifyBlock block fun b => { b with stmts := b.stmts.insertIdx (side.place i) id }
  return (p, id)

end Program

end TensorKernel
