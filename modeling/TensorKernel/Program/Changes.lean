import TensorKernel.Program

/-!
# What a change leaves as it was

Every operation on a program touches one thing and leaves the rest alone. The
laws here say so, operation by operation:

* a change of one instruction or one block leaves every other one and all
  numbers in place (`modifyStmt_eq_ok_iff`, `modifyBlock_eq_ok_iff`);
* adopting blocks changes no instruction (`stmts_of_adopt`);
* creating an instruction gives it the next free number, appends it and changes
  no other instruction, whether it is pushed to the end of a block or inserted
  next to a neighbour (`stmts_of_alloc`, `stmts_of_push`, `stmts_of_insert`).
-/

namespace TensorKernel.Program

open Fault (bind_eq_ok_iff pure_eq_ok_iff)

variable {p q : Program}

/-! ### Single instructions and blocks -/

theorem modifyStmt_eq_ok_iff {id : StmtId} {f : Stmt → Stmt} :
    p.modifyStmt id f = .ok q ↔
      ∃ s, p.stmts[id]? = some s ∧ q = { p with stmts := p.stmts.setIfInBounds id (f s) } := by
  simp only [modifyStmt, bind_eq_ok_iff, pure_eq_ok_iff, stmt_eq_ok_iff, eq_comm (a := q)]

theorem modifyBlock_eq_ok_iff {id : BlockId} {f : Block → Block} :
    p.modifyBlock id f = .ok q ↔
      ∃ b, p.blocks[id]? = some b ∧ q = { p with blocks := p.blocks.setIfInBounds id (f b) } := by
  simp only [modifyBlock, bind_eq_ok_iff, pure_eq_ok_iff, block_eq_ok_iff, eq_comm (a := q)]

theorem size_of_modifyStmt {id : StmtId} {f : Stmt → Stmt} (h : p.modifyStmt id f = .ok q) :
    q.size = p.size := by
  obtain ⟨s, -, rfl⟩ := modifyStmt_eq_ok_iff.1 h
  simp [size]

theorem stmts_of_modifyBlock {id : BlockId} {f : Block → Block}
    (h : p.modifyBlock id f = .ok q) : q.stmts = p.stmts := by
  obtain ⟨b, -, rfl⟩ := modifyBlock_eq_ok_iff.1 h
  rfl

/-! ### New instructions -/

theorem stmts_of_adopt {owner : StmtId} {blocks : List BlockId}
    (h : p.adopt owner blocks = .ok q) : q.stmts = p.stmts := by
  induction blocks generalizing p with
  | nil => cases h; rfl
  | cons b rest ih =>
    obtain ⟨r, hm, hr⟩ := bind_eq_ok_iff.1 h
    exact (ih hr).trans (stmts_of_modifyBlock hm)

/-- A new instruction is the last one and has the next free number. -/
theorem stmts_of_alloc {block : BlockId} {instr : Instr} {span : Span} {id : StmtId}
    (h : p.alloc block instr span = .ok (q, id)) :
    id = p.size ∧ q.stmts = p.stmts.push ⟨id, span, instr.initialType, instr, block⟩ := by
  obtain ⟨r, hc, hr⟩ := bind_eq_ok_iff.1 h
  cases hr
  exact ⟨rfl, by rw [stmts_of_adopt hc]⟩

theorem stmts_of_push {block : BlockId} {instr : Instr} {span : Span} {id : StmtId}
    (h : p.push block instr span = .ok (q, id)) :
    id = p.size ∧ q.stmts = p.stmts.push ⟨id, span, instr.initialType, instr, block⟩ := by
  obtain ⟨⟨r, new⟩, ha, h⟩ := bind_eq_ok_iff.1 h
  obtain ⟨r', hm, hr⟩ := bind_eq_ok_iff.1 h
  cases hr
  rw [stmts_of_modifyBlock hm]
  exact stmts_of_alloc ha

/-- An instruction has its place in the block that owns it. -/
theorem stmt_of_position {id : StmtId} {block : BlockId} {i : Nat}
    (h : p.position id = .ok (block, i)) :
    ∃ s, p.stmts[id]? = some s ∧ s.block = block := by
  obtain ⟨s, hs, h⟩ := bind_eq_ok_iff.1 h
  obtain ⟨b, -, h⟩ := bind_eq_ok_iff.1 h
  refine ⟨s, stmt_eq_ok_iff.1 hs, ?_⟩
  split at h
  · cases h; rfl
  · cases h

/-- An inserted instruction belongs to the block of its neighbour. -/
theorem stmts_of_insert {side : Side} {anchor : StmtId} {instr : Instr} {span : Span}
    {id : StmtId} (h : p.insert side anchor instr span = .ok (q, id)) :
    ∃ s, p.stmts[anchor]? = some s ∧ id = p.size ∧
      q.stmts = p.stmts.push ⟨id, span, instr.initialType, instr, s.block⟩ := by
  obtain ⟨⟨block, i⟩, hp, h⟩ := bind_eq_ok_iff.1 h
  obtain ⟨s, hs, rfl⟩ := stmt_of_position hp
  obtain ⟨⟨r, new⟩, ha, h⟩ := bind_eq_ok_iff.1 h
  obtain ⟨r', hm, hr⟩ := bind_eq_ok_iff.1 h
  cases hr
  rw [stmts_of_modifyBlock hm]
  exact ⟨s, hs, stmts_of_alloc ha⟩

end TensorKernel.Program
