import TensorKernel.Proofs.Build
import TensorKernel.Proofs.Parallel
import TensorKernel.Proofs.Walk

/-!
# Programs under operations

Whoever holds a program can let it grow, insert next to any instruction, set types and have it
checked, in any order. `Operation` is the list of these possibilities and `Program.ofOperations`
what comes of a sequence of them. A sequence ends in a fault as soon as one operation follows a
number that refers to nothing; of a check that comes to an end the program remains that it leaves,
passed or refused.

Two structures say the same thing, the owner that an instruction names and the lists of the
blocks. They agree after every sequence of operations (`ofOperations_coherent`):

* `Inserted` — an insertion puts the new instruction right beside its anchor and moves nothing
  else (`inserted_of_insert`), and it needs no more than that its numbers refer to something
  (`Coherent.exists_insert`);
* `Checker.keepsCoherent` — each step of a check keeps the representation, also of a program that
  names operands which are not there.
-/

namespace TensorKernel

open Fault (bind_eq_ok_iff)

/-! ### Insertions -/

namespace Program

variable {p q : Program} {x id anchor : StmtId} {b : BlockId} {side : Side} {instr : Instr}
  {span : Span} {t : VectorType}

/-- An instruction that exists is listed once by its own block, and by no other. -/
theorem Coherent.count_listAt (h : p.Coherent) (hx : x < p.size) :
    (p.listAt b).count x = if b = p.homeAt x then 1 else 0 := by
  split
  · next hb =>
    subst hb
    exact List.count_eq_one_of_mem (h.nodup _) (h.listed x hx)
  · next hb => exact List.count_eq_zero_of_not_mem fun hmem => hb (h.owned b x hmem).2.symm

/-- **An insertion** next to `anchor`: one instruction more in the block of the anchor, right beside
it. -/
structure Inserted (p : Program) (side : Side) (anchor : StmtId) (instr : Instr) (q : Program) :
    Prop where
  anchor_lt : anchor < p.size
  nested : ∀ b ∈ instr.blocks, b < p.blocks.size
  added : Added p (p.homeAt anchor) q
  instr_eq : q.instrAt p.size = instr
  list : ∃ front back, p.listAt (p.homeAt anchor) = front ++ anchor :: back ∧
    q.listAt (p.homeAt anchor) = front ++ (side.around anchor p.size ++ back)

/-- An insertion is one whether or not the representation is sound otherwise. -/
theorem inserted_of_insert (h : p.insert side anchor instr span = .ok (q, id)) :
    id = p.size ∧ Inserted p side anchor instr q := by
  -- a program that takes the instruction has gone through all four parts of the insertion
  obtain ⟨s, hs, rfl, hstmts⟩ := stmts_of_insert h
  refine ⟨rfl, ?_⟩
  obtain ⟨⟨b, i⟩, hposition, h⟩ := bind_eq_ok_iff.1 h
  obtain ⟨⟨r, new⟩, halloc, h⟩ := bind_eq_ok_iff.1 h
  obtain ⟨r', hmodify, h⟩ := bind_eq_ok_iff.1 h
  cases h
  obtain ⟨r'', hadopt, h⟩ := bind_eq_ok_iff.1 halloc
  cases h
  -- the anchor has a place, in the block that it names as its owner
  obtain ⟨hanchor, hmem⟩ := listed_of_position hposition
  rw [position_eq hanchor hmem] at hposition
  cases hposition
  have howner : s.block = p.homeAt anchor := by
    rw [homeAt, stmtAt, hs]
    rfl
  -- adopting changes parents only, and the one change of a block puts the new number there
  obtain ⟨hnested, hsize, hlist⟩ := listAt_of_adopt hadopt
  obtain ⟨-, hsize', hblocks⟩ := blocks_of_modifyBlock hmodify
  have hnew : q.stmtAt p.size =
      ⟨p.size, span, instr.initialType, instr, p.homeAt anchor⟩ := by
    rw [stmtAt, hstmts, howner, Program.size, Array.getElem?_push_size, Option.getD_some]
  obtain ⟨front, back, hp, hq⟩ := side.insertIdx_place p.size hmem
  have hlisted : q.listAt (p.homeAt anchor) = front ++ (side.around anchor p.size ++ back) := by
    rw [listAt, hblocks, if_pos rfl, ← hq, ← hlist]
    rfl
  refine ⟨hanchor, hnested, ?_, by rw [instrAt, hnew], front, back, hp, hlisted⟩
  refine ⟨?_, hsize'.trans hsize, ?_, by rw [hnew], by rw [homeAt, hnew], ?_, ?_⟩
  · -- the new instruction comes last, and the old ones stay as they are
    rw [Program.size, hstmts, Array.size_push, Program.size]
  · intro x hx
    rw [stmtAt, hstmts, Array.getElem?_push_lt hx, stmtAt, Array.getElem?_eq_getElem hx]
  · -- on either side of the anchor the list is the old one with one entry more
    cases side with
    | before => exact ⟨front, anchor :: back, hp, hlisted⟩
    | after =>
      refine ⟨front ++ [anchor], back, ?_, ?_⟩
      · rw [hp, List.append_assoc]
        rfl
      · rw [hlisted, List.append_assoc]
        rfl
  · -- no other block is touched
    intro b hb
    rw [listAt, hblocks, if_neg hb]
    exact hlist b

/-- **An insertion succeeds** next to any instruction that exists, if the blocks exist that the new
instruction nests. -/
theorem Coherent.exists_insert (h : p.Coherent) (ha : anchor < p.size)
    (hnested : ∀ b ∈ instr.blocks, b < p.blocks.size) :
    ∃ q, p.insert side anchor instr span = .ok (q, p.size) := by
  have hmem := h.listed anchor ha
  obtain ⟨r, hadopt⟩ : ∃ r, p.adopt p.size instr.blocks = .ok r := exists_adopt hnested
  obtain ⟨-, hsize, -⟩ := listAt_of_adopt hadopt
  have hlt : p.homeAt anchor < r.blocks.size := hsize ▸ lt_size_of_mem_listAt hmem
  have halloc : p.alloc (p.homeAt anchor) instr span =
      .ok (⟨r.stmts.push ⟨p.size, span, instr.initialType, instr, p.homeAt anchor⟩, r.blocks⟩,
        p.size) := bind_eq_ok_iff.2 ⟨r, hadopt, rfl⟩
  simp only [insert, position_eq ha hmem, bind_eq_ok_iff]
  exact ⟨_, _, rfl, _, halloc, _, modifyBlock_eq hlt, rfl⟩

/-! ### Types and operands -/

theorem Coherent.of_setType (h : p.Coherent) (hq : p.setType x t = .ok q) : q.Coherent := by
  rw [setType_eq (lt_size_of_modifyStmt hq)] at hq
  cases hq
  exact h.retype

theorem Coherent.of_setElem {elem : ElementType} (h : p.Coherent)
    (hq : p.setElem x elem = .ok q) : q.Coherent := by
  rw [setElem_eq (lt_size_of_modifyStmt hq)] at hq
  cases hq
  exact h.retype

theorem Coherent.of_setInstr (h : p.Coherent) (hq : p.setInstr x instr = .ok q) :
    q.Coherent := by
  rw [setInstr_eq (lt_size_of_modifyStmt hq)] at hq
  cases hq
  exact h.rewrite

end Program

/-! ### Checks -/

namespace Checker

variable {α β : Type} {s : CheckState}

/-- If the step comes to an end, it leaves a sound representation sound. -/
def KeepsCoherent (step : Checker α) : Prop :=
  ∀ s, s.program.Coherent → Ends True s step fun _ left => left.program.Coherent

/-- A change of the program that keeps the representation. -/
theorem keepsCoherent_edit {change : Program → Except Fault Program}
    (h : ∀ p q : Program, p.Coherent → change p = .ok q → q.Coherent) :
    KeepsCoherent (edit change) := by
  intro s hs
  unfold Ends
  rw [runOn_edit]
  cases hq : change s.program with
  | error fault => trivial
  | ok q => exact h _ _ hs hq

theorem keepsCoherent_insertCast {side : Program.Side} {anchor input : StmtId}
    {target : ElementType} : KeepsCoherent (insertCast side anchor input target) := by
  intro s hs
  unfold Ends
  split
  · trivial
  · next answer left hrun =>
    rw [runOn_insertCast] at hrun
    obtain ⟨type, -, hrun⟩ := bind_eq_ok_iff.1 hrun
    obtain ⟨near, -, hrun⟩ := bind_eq_ok_iff.1 hrun
    obtain ⟨⟨grown, cast⟩, hinsert, hrun⟩ := bind_eq_ok_iff.1 hrun
    obtain ⟨program, htype, hrun⟩ := bind_eq_ok_iff.1 hrun
    cases hrun
    -- the conversion is inserted, and then it is typed
    have hgrown := (Program.inserted_of_insert hinsert).2.added.coherent hs
    exact hgrown.of_setType htype

/-- **Every step of a check keeps the representation**, whatever program is checked. -/
theorem keepsCoherent (config : Config) :
    Parallel config config fun step _ => KeepsCoherent step where
  lowering _ := rfl
  answer _ _ hs := hs
  andThen h hnext s hs := (h s hs).bind (fun a left hleft => hnext a left hleft) fun _ _ h => h
  look ask s hs := by
    unfold Ends
    rw [runOn_lookUp]
    cases ask s.program with
    | error fault => trivial
    | ok a => exact hs
  type _ _ := keepsCoherent_edit fun _ _ hp hq => hp.of_setType hq
  elem _ _ := keepsCoherent_edit fun _ _ hp hq => hp.of_setElem hq
  instr _ _ := keepsCoherent_edit fun _ _ hp hq => hp.of_setInstr hq
  cast _ _ _ _ := keepsCoherent_insertCast
  stop _ _ _ hs := hs
  report id loss s hs := by
    unfold reportLoss
    split
    · exact hs
    · unfold Ends
      rw [runOn_warn]
      -- a warning is not part of the program
      cases s.program.stmt id with
      | error fault => trivial
      | ok stmt => exact hs

/-- A check leaves a sound representation, if it comes to an end. -/
theorem coherent_of_typecheck {ctx : CheckContext} {p : Program} {o : Outcome} (hp : p.Coherent)
    (ho : p.typecheck ctx = .ok o) : o.program.Coherent := by
  obtain ⟨answer, left, hrun, rfl⟩ := exists_run_of_typecheck ho
  have hkeeps := (keepsCoherent ctx.config).pass rfl ctx.storage ctx.signature
  exact (hkeeps { program := p } hp).of_runOn hrun

end Checker

/-! ### Sequences of operations -/

/-- **One operation on a program.** -/
inductive Operation where
  | newBlock
  | push (block : BlockId) (instr : Instr) (span : Span)
  | insert (side : Program.Side) (anchor : StmtId) (instr : Instr) (span : Span)
  | setType (id : StmtId) (type : VectorType)
  | check (ctx : CheckContext)
  deriving DecidableEq

/-- What an operation makes of a program. -/
def Operation.run (p : Program) : Operation → Except Fault Program
  | newBlock => .ok p.newBlock.1
  | push block instr span => do return (← p.push block instr span).1
  | insert side anchor instr span => do return (← p.insert side anchor instr span).1
  | setType id type => p.setType id type
  | check ctx => do return (← p.typecheck ctx).program

/-- The program that operations make, one after the other, of an empty one. -/
def Program.ofOperations (ops : List Operation) : Except Fault Program :=
  ops.foldlM Operation.run .empty

namespace Operation

variable {p q : Program}

theorem run_coherent {op : Operation} (hp : p.Coherent) (h : op.run p = .ok q) :
    q.Coherent := by
  cases op with
  | newBlock =>
    -- a new block is empty
    cases h
    exact hp.newBlock
  | push block instr span =>
    -- a new instruction is appended to its block
    obtain ⟨⟨r, id⟩, hpush, h⟩ := bind_eq_ok_iff.1 h
    cases h
    exact (Program.pushed_of_push hpush).coherent hp
  | insert side anchor instr span =>
    -- a new instruction is put beside its anchor
    obtain ⟨⟨r, id⟩, hinsert, h⟩ := bind_eq_ok_iff.1 h
    cases h
    exact (Program.inserted_of_insert hinsert).2.added.coherent hp
  | setType id type => exact hp.of_setType h
  | check ctx =>
    -- a check only makes moves
    obtain ⟨o, ho, h⟩ := bind_eq_ok_iff.1 h
    cases h
    exact Checker.coherent_of_typecheck hp ho

/-- **Operations keep the representation**, one after the other. -/
theorem foldlM_coherent {ops : List Operation} (hp : p.Coherent)
    (h : ops.foldlM run p = .ok q) : q.Coherent := by
  induction ops generalizing p with
  | nil =>
    cases h
    exact hp
  | cons op ops ih =>
    rw [List.foldlM_cons] at h
    obtain ⟨r, hr, h⟩ := bind_eq_ok_iff.1 h
    exact ih (run_coherent hp hr) h

end Operation

namespace Program

variable {ops : List Operation} {p : Program}

theorem coherent_ofOperations (h : ofOperations ops = .ok p) : p.Coherent :=
  Operation.foldlM_coherent coherent_empty h

/-- **The representation invariant.** After operations of any kind and in any order, checks among
them, an instruction carries the number that it is found under, it is listed once by the block
that owns it and by no other, and what is listed exists. An insertion puts the next free number
right beside its anchor and leaves all else as it is; and it does not fail, as long as the anchor
and the nested blocks exist. -/
theorem ofOperations_represents (h : ofOperations ops = .ok p) :
    (∀ x < p.size, (p.stmtAt x).id = x) ∧
      (∀ x < p.size, ∀ b, (p.listAt b).count x = if b = p.homeAt x then 1 else 0) ∧
      (∀ b, ∀ x ∈ p.listAt b, x < p.size) ∧
      (∀ side anchor instr span q new, p.insert side anchor instr span = .ok (q, new) →
        new = p.size ∧ p.Inserted side anchor instr q) ∧
      ∀ side anchor instr span, anchor < p.size → (∀ b ∈ instr.blocks, b < p.blocks.size) →
        ∃ q, p.insert side anchor instr span = .ok (q, p.size) := by
  have hp := coherent_ofOperations h
  refine ⟨hp.id_eq, fun x hx b => hp.count_listAt hx, fun b x hx => (hp.owned b x hx).1, ?_, ?_⟩
  · -- what an insertion leaves if it succeeds
    intro side anchor instr span q new hinsert
    exact inserted_of_insert hinsert
  · -- and it succeeds whenever anchor and blocks exist
    intro side anchor instr span ha hnested
    exact hp.exists_insert ha hnested

/-- Every kind of operation: a loop is checked, which inserts a conversion of what it divides by,
and then its block is entered once more and shared. -/
def loopOperations : List Operation :=
  [.push root (.const (.i32 1)) .dummy, .push root (.const (.f32 0)) .dummy, .newBlock,
    .push root (.rangeFor 0 0 1) .dummy, .push 1 (.binary .floorDiv 0 1) .dummy,
    .check ⟨{}, {}, .empty⟩, .insert .before 3 .alloca .dummy, .setType 5 (.scalar .i32),
    .insert .after 2 (.whileLoop 1) .dummy, .check ⟨{}, {}, .empty⟩]

theorem ofOperations_represents_loop :
    ∃ p, ofOperations loopOperations = .ok p ∧
      p.blocks.toList.map Block.stmts = [[0, 1, 4, 2, 6], [5, 3]] ∧
      (∀ x < p.size, (p.stmtAt x).id = x) ∧
      (∀ x < p.size, ∀ b, (p.listAt b).count x = if b = p.homeAt x then 1 else 0) ∧
      (∀ b, ∀ x ∈ p.listAt b, x < p.size) ∧
      (∀ side anchor instr span q new, p.insert side anchor instr span = .ok (q, new) →
        new = p.size ∧ p.Inserted side anchor instr q) ∧
      ∀ side anchor instr span, anchor < p.size → (∀ b ∈ instr.blocks, b < p.blocks.size) →
        ∃ q, p.insert side anchor instr span = .ok (q, p.size) := by
  -- the lists that the operations lead to, evaluated
  have hlists : (ofOperations loopOperations).map (fun p => p.blocks.toList.map Block.stmts) =
      .ok [[0, 1, 4, 2, 6], [5, 3]] := by decide +kernel
  cases hp : ofOperations loopOperations with
  | error fault => rw [hp] at hlists; cases hlists
  | ok p =>
    rw [hp] at hlists
    exact ⟨p, rfl, Except.ok.inj hlists, ofOperations_represents hp⟩

end Program

end TensorKernel
