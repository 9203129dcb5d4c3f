import TensorKernel.Proofs.Build
import TensorKernel.Proofs.Walk

/-!
# What a check leaves alone

Every check of a program in which everything is there that a check follows (`Checkable`), and in
which no block lies in itself, comes to an end, and it is a sequence of moves (`typecheck_steps`).
Hence, whether the program passes or is refused:

* `typecheck_erases` — without the conversions that were inserted it is the program that was given;
* `typecheck_dominated` — operands that were there in time are still there in time, and so are
  those of the conversions.
-/

namespace TensorKernel.Program

variable {n : Nat} {p q r : Program} {t : Storage} {x : StmtId}

/-- **Everything that a check follows is there.** -/
structure Checkable (p : Program) (t : Storage) : Prop where
  coherent : p.Coherent
  grounded : p.Grounded
  nested : p.Nested
  linked : t.Linked
  nodes : ∀ x < p.size, ∀ k ∈ (p.instrAt x).nodes, k < t.size

/-- **Everything that an instruction refers to is there.** -/
structure InRange (p : Program) (t : Storage) : Prop where
  coherent : p.Coherent
  closed : p.Closed
  linked : t.Linked
  nodes : ∀ x < p.size, ∀ k ∈ (p.instrAt x).nodes, k < t.size

theorem InRange.checkable (h : p.InRange t) : p.Checkable t :=
  ⟨h.coherent, h.closed.grounded, h.closed.blocks, h.linked, h.nodes⟩

/-- What the rules of any instructions may do, in any order. -/
abbrev Steps (n : Nat) : Program → Program → Prop :=
  Relation.ReflTransGen fun q r => ∃ u, Move n u q r

theorem Moves.steps {u : StmtId} (h : Moves n u p q) : Steps n p q :=
  h.lift (fun q => q) fun _ _ hmove => ⟨u, hmove⟩

namespace Steps

theorem coherent (h : Steps n p q) (hp : p.Coherent) : q.Coherent := by
  induction h with
  | refl => exact hp
  | tail _ hmove ih => exact hmove.elim fun _ hmove => hmove.coherent ih

theorem grounded (h : Steps n p q) (hp : p.Grounded) : q.Grounded := by
  induction h with
  | refl => exact hp
  | tail _ hmove ih => exact hmove.elim fun _ hmove => hmove.grounded ih

theorem closed (h : Steps n p q) (hp : p.Closed) : q.Closed := by
  induction h with
  | refl => exact hp
  | tail _ hmove ih => exact hmove.elim fun _ hmove => hmove.closed ih

theorem erases (h : Steps p.size p q) (hp : p.Coherent) : p.Erases q := by
  induction h with
  | refl => exact .refl hp
  | tail hsteps hmove ih =>
    exact hmove.elim fun _ hmove => ih.move (coherent hsteps hp) hmove

theorem dominated (h : Steps n p q) (hp : p.Coherent) (hdom : p.Dominated) : q.Dominated := by
  induction h with
  | refl => exact hdom
  | tail hsteps hmove ih =>
    exact hmove.elim fun _ hmove => hmove.dominated (coherent hsteps hp) ih

/-- Steps keep everything in range. -/
theorem inRange (h : Steps p.size p q) (hp : p.InRange t) : q.InRange t where
  coherent := coherent h hp.coherent
  closed := closed h hp.closed
  linked := hp.linked
  nodes _ hx := (erases h hp.coherent).nodes hp.nodes hx

end Steps

/-- What is built refers to blocks that are there, and to everything else if the steps do. -/
theorem inRange_of_build {steps : List Step} {ids : List StmtId}
    (h : build steps = .ok (p, ids)) (ht : t.Linked)
    (hops : ∀ x < p.size, ∀ o ∈ (p.instrAt x).operands, o < p.size)
    (hnodes : ∀ x < p.size, ∀ k ∈ (p.instrAt x).nodes, k < t.size) : p.InRange t where
  coherent := build_coherent h
  closed := ⟨hops, build_nested h⟩
  linked := ht
  nodes := hnodes

theorem Checkable.answers (h : p.Checkable t) (hsteps : Steps p.size p q) (hx : x < q.size) :
    t.Answers (q.instrAt x).nodes :=
  ⟨h.linked, (Steps.erases hsteps h.coherent).nodes h.nodes hx⟩

theorem InRange.answers (h : p.InRange t) (hx : x < p.size) : t.Answers (p.instrAt x).nodes :=
  ⟨h.linked, h.nodes x hx⟩

end Program

namespace Checker

open Program (Steps)

variable {ctx : CheckContext} {p q : Program} {s : CheckState} {u : StmtId}

/-- After any steps the rule of any instruction can be applied. -/
theorem ready_of_steps (h : Steps p.size p q) (hp : p.Coherent) (hgrounded : p.Grounded)
    (hu : u < q.size) : Ready p.size u q :=
  ⟨Steps.coherent h hp, Steps.grounded h hgrounded, (Steps.erases h hp).extends'.size_le, hu⟩

/-- A rule makes moves, and stops at its own instruction. -/
private theorem rule_steps {excuse : Prop} (hp : p.Checkable ctx.storage)
    (hsteps : Steps p.size p s.program) (hu : u < s.program.size) :
    Ends excuse s (rule ctx u (s.program.instrAt u))
      (Goes s (fun left => Steps p.size p left.program) fun fatal left =>
        Steps p.size p left.program ∧ fatal.stmt < left.program.size) := by
  have hready := ready_of_steps hsteps hp.coherent hp.grounded hu
  -- of what the rule obeys, only that it makes moves is needed
  refine (rule_obeys hready (.inr (hp.answers hsteps hu))).mono ?_
  intro r left hobeys
  have hleft : Steps p.size p left.program :=
    hsteps.trans (Program.Moves.steps hobeys.progress.moves)
  refine ⟨hobeys.progress.size_le hready, ?_⟩
  cases r with
  | ok => exact hleft
  | error fatal =>
    obtain ⟨error, -, rfl⟩ := Ruling.answer_eq_error_iff.1 hobeys.verdict.symm
    exact ⟨hleft, Nat.lt_of_lt_of_le hu (hobeys.progress.size_le hready)⟩

/-- **A check comes to an end, and is a sequence of moves.** -/
theorem typecheck_steps (hp : p.Checkable ctx.storage) (hacyclic : p.Acyclic) :
    ∃ answer left, p.typecheck ctx = .ok (outcome answer left) ∧ Steps p.size p left.program := by
  -- any sequence of moves will do, so original instructions and conversions are treated alike
  have hwalks : Walks False ctx p (p.order p.nestingBound Program.root)
      (fun _ s => Steps p.size p s.program) (fun _ => True)
      (fun fatal left => Steps p.size p left.program ∧ fatal.stmt < left.program.size) :=
    { coherent := fun h => Steps.coherent h hp.coherent
      extends' := fun h => (Steps.erases h hp.coherent).extends'
      enter := fun _ _ _ _ _ _ => trivial
      step := fun h _ hu => rule_steps hp h
        (Nat.lt_of_lt_of_le hu (Steps.erases h hp.coherent).extends'.size_le)
      cast := fun h _ _ hc => rule_steps hp h hc }
  have hends := hwalks.pass_ends (s := { program := p }) (fun h => Steps.grounded h hp.grounded)
    (Program.fits_of_nested hp.coherent hp.nested hacyclic) rfl .refl
  obtain ⟨answer, left, htype, hpost⟩ := exists_typecheck hends fun fatal left hpost => by
    rcases hpost with ⟨-, hlt⟩ | ⟨-, -, hlt⟩
    · exact hlt
    · exact hlt
  refine ⟨answer, left, htype, ?_⟩
  cases answer with
  | ok => exact hpost.1
  | error fatal =>
    rcases hpost with ⟨hsteps, -⟩ | ⟨-, ⟨hsteps, -⟩, -⟩
    · exact hsteps
    · exact hsteps

end Checker

namespace Program

/-! ### A loop, for example -/

/-- A loop that divides by a float from outside, which a check has to convert. -/
def loopSteps : List Step :=
  [.emit (.const (.i32 1)), .emit (.const (.f32 0)), .rangeFor 0 0 [.emit (.binary .floorDiv 0 1)]]

/-- The program that `loopSteps` build. -/
def loopProgram : Program where
  stmts := #[⟨0, .dummy, .scalar .i32, .const (.i32 1), root⟩,
    ⟨1, .dummy, .scalar .f32, .const (.f32 0), root⟩,
    ⟨2, .dummy, .scalar .unknown, .rangeFor 0 0 1, root⟩,
    ⟨3, .dummy, .scalar .unknown, .binary .floorDiv 0 1, 1⟩]
  blocks := #[⟨[0, 1, 2], none⟩, ⟨[3], some 2⟩]

theorem build_loopSteps : build loopSteps = .ok (loopProgram, [0, 1, 2, 3, 2]) := by decide

theorem loopProgram_inRange : loopProgram.InRange .empty :=
  inRange_of_build build_loopSteps Storage.linked_empty (by decide) (by decide)

theorem loopProgram_tree : loopProgram.Tree :=
  build_tree build_loopSteps ⟨rfl, rfl, ⟨rfl, trivial⟩, trivial⟩

theorem loopProgram_dominated : loopProgram.Dominated := by
  intro x hx o ho
  have hloop : loopProgram.Encloses 2 3 := ⟨by decide, by decide, by decide⟩
  -- only the loop and its body have operands, and those stand in front of the loop
  have hbefore : ∀ x < loopProgram.size, ∀ o ∈ (loopProgram.instrAt x).operands,
      [o, 2].Sublist (loopProgram.listAt (loopProgram.homeAt o)) ∧ (x = 2 ∨ x = 3) := by decide
  obtain ⟨hsub, rfl | rfl⟩ := hbefore x hx o ho
  · exact ⟨2, .refl, hsub⟩
  · exact ⟨2, .single hloop, hsub⟩

/-- The check converts the float right behind it, and the division reads the conversion. -/
theorem loopProgram_converts {o : Outcome}
    (ho : loopProgram.typecheck ⟨{}, {}, .empty⟩ = .ok o) :
    o.program.size = 5 ∧ o.program.instrAt 3 = .binary .div 0 4 ∧
      o.program.instrAt 4 = .unary (.cast .i32 true) 1 ∧ o.program.listAt root = [0, 1, 4, 2] := by
  have hrun : (loopProgram.typecheck ⟨{}, {}, .empty⟩).map (fun o =>
      (o.program.size, o.program.instrAt 3, o.program.instrAt 4, o.program.listAt root)) =
        .ok (5, .binary .div 0 4, .unary (.cast .i32 true) 1, [0, 1, 4, 2]) := by decide +kernel
  rw [ho] at hrun
  have hpair := Except.ok.inj hrun
  simpa only [Prod.mk.injEq] using hpair

/-! ### Frame theorems -/

variable {ctx : CheckContext} {p : Program}

/-- **Erasing the conversions recovers the program.** A check that passes and one that is refused
both leave every instruction where it was, and every operand the one it was, seen through the
conversions that were inserted. -/
theorem typecheck_erases (hp : p.InRange ctx.storage) (hacyclic : p.Acyclic) :
    ∃ o, p.typecheck ctx = .ok o ∧ p.Erases o.program := by
  obtain ⟨answer, left, htype, hsteps⟩ := Checker.typecheck_steps hp.checkable hacyclic
  exact ⟨_, htype, Steps.erases hsteps hp.coherent⟩

theorem typecheck_erases_loop :
    loopProgram.InRange .empty ∧ loopProgram.Acyclic ∧
      ∃ o, loopProgram.typecheck ⟨{}, {}, .empty⟩ = .ok o ∧ o.program.size = 5 ∧
        o.program.instrAt 3 = .binary .div 0 4 ∧
        o.program.instrAt 4 = .unary (.cast .i32 true) 1 ∧ loopProgram.Erases o.program := by
  have hacyclic := loopProgram_tree.acyclic loopProgram_inRange.coherent
  obtain ⟨o, ho, herases⟩ : ∃ o, loopProgram.typecheck ⟨{}, {}, .empty⟩ = .ok o ∧
      loopProgram.Erases o.program := typecheck_erases loopProgram_inRange hacyclic
  obtain ⟨hsize, hdiv, hcast, -⟩ := loopProgram_converts ho
  exact ⟨loopProgram_inRange, hacyclic, o, ho, hsize, hdiv, hcast, herases⟩

/-- **Conversions are there in time.** If every operand dominates the instruction that reads it,
that still is so after a check, for the conversions as well as for what reads them. -/
theorem typecheck_dominated (hp : p.InRange ctx.storage) (hacyclic : p.Acyclic)
    (hdom : p.Dominated) : ∃ o, p.typecheck ctx = .ok o ∧ o.program.Dominated := by
  obtain ⟨answer, left, htype, hsteps⟩ := Checker.typecheck_steps hp.checkable hacyclic
  exact ⟨_, htype, Steps.dominated hsteps hp.coherent hdom⟩

theorem typecheck_dominated_loop :
    loopProgram.InRange .empty ∧ loopProgram.Acyclic ∧ loopProgram.Dominated ∧
      ∃ o, loopProgram.typecheck ⟨{}, {}, .empty⟩ = .ok o ∧ o.program.size = 5 ∧
        o.program.instrAt 3 = .binary .div 0 4 ∧ o.program.listAt root = [0, 1, 4, 2] ∧
        o.program.Dominated := by
  have hacyclic := loopProgram_tree.acyclic loopProgram_inRange.coherent
  obtain ⟨o, ho, hdom⟩ : ∃ o, loopProgram.typecheck ⟨{}, {}, .empty⟩ = .ok o ∧
      o.program.Dominated :=
    typecheck_dominated loopProgram_inRange hacyclic loopProgram_dominated
  obtain ⟨hsize, hdiv, -, hlist⟩ := loopProgram_converts ho
  exact ⟨loopProgram_inRange, hacyclic, loopProgram_dominated, o, ho, hsize, hdiv, hlist, hdom⟩

end TensorKernel.Program
