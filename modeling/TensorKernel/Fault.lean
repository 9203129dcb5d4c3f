/-!
# References and faults

Instructions, blocks and storage nodes are referred to by their number. A
number may refer to nothing: whoever builds a kernel may name things that do
not exist, and nothing is checked until the reference is followed. Following
such a reference is a `Fault`, which ends the computation; it is kept apart
from the type errors of a kernel, which are answers and not faults.
-/

namespace TensorKernel

/-- The number of an instruction in its program, in order of creation. It stands
for a number of 32 bits: programs are taken to have fewer than `2 ^ 32`
instructions, with the conversions that a check inserts. -/
abbrev StmtId := Nat

/-- The number of a block in its program, in order of creation; the root is block
0. Programs are taken to have fewer than `2 ^ 32` blocks. -/
abbrev BlockId := Nat

/-- The number of a node in the storage tree, in order of creation; the root is
node 0. Storage trees are taken to have fewer than `2 ^ 32` nodes. -/
abbrev NodeId := Nat

/-- An instruction reference in printed form, as in `$3`. -/
def stmtRef (id : StmtId) : String := "$" ++ toString id

/-- A storage-node reference in printed form, as in `S2`. -/
def nodeRef (id : NodeId) : String := "S" ++ toString id

/-- Why a computation could not go on. -/
inductive Fault where
  /-- There is no instruction of this number. -/
  | noStmt (id : StmtId)
  /-- There is no block of this number. -/
  | noBlock (id : BlockId)
  /-- There is no storage node of this number. -/
  | noNode (id : NodeId)
  /-- The instruction is not in the list of the block that owns it. -/
  | unlisted (id : StmtId)
  /-- Blocks are nested deeper than there are blocks: some block contains itself. -/
  | endlessNesting
  /-- A source span ends before it starts, so there is no text to show. -/
  | backwardSpan
  deriving DecidableEq

namespace Fault

variable {α β : Type} {x : Except Fault α} {next : α → Except Fault β} {b : β}

/-- A sequence of computations is free of faults exactly when each one is in turn. -/
theorem bind_eq_ok_iff : (x >>= next) = .ok b ↔ ∃ a, x = .ok a ∧ next a = .ok b := by
  cases x <;> simp [bind, Except.bind]

theorem pure_eq_ok_iff {a c : α} : (pure a : Except Fault α) = .ok c ↔ a = c := by
  simp [pure, Except.pure]

end Fault

end TensorKernel
