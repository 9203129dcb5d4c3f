import TensorKernel.Proofs.Frame
import TensorKernel.Proofs.Operations

/-!
# Checks come to an end

A check follows the numbers that the program gives it: of instructions, of blocks and of storage
nodes. Of a program that was made by operations it needs no more than that those exist which it
follows, and that no block lies in itself. Then it comes to an end, in a result or in a failure,
and the blocks are nested in one another as they were (`typecheck_safe`).

A check walks through blocks to a given depth only, and is at fault where they are nested deeper.
That bound does not cut a walk short: a larger one leads to the same end (`visitBlock_includes`).
-/

namespace TensorKernel

namespace Checker

variable {α : Type} {ctx : CheckContext} {b : BlockId} {depth : Nat}

/-- Wherever `step` comes to an end, `step'` comes to the same one. -/
def Includes (step step' : Checker α) : Prop :=
  ∀ s made, runOn step s = .ok made → runOn step' s = .ok made

theorem Includes.andThen {β : Type} {step step' : Checker α} {next next' : α → Checker β}
    (h : Includes step step') (hnext : ∀ a, Includes (next a) (next' a)) :
    Includes (step >>= next) (step' >>= next') := by
  intro s made hrun
  rw [runOn_bind] at hrun ⊢
  cases hstep : runOn step s with
  | error fault => rw [hstep] at hrun; cases hrun
  | ok mid =>
    rw [hstep] at hrun
    rw [h s mid hstep]
    obtain ⟨answer, left⟩ := mid
    -- a stop is the same stop in both, and the rest follows only an answer
    cases answer with
    | error fatal => exact hrun
    | ok a => exact hnext a left made hrun

/-- Every step includes itself. -/
theorem includes (config : Config) :
    Parallel config config fun step step' => Includes step step' where
  lowering _ := rfl
  answer _ _ _ h := h
  andThen h hnext := h.andThen hnext
  look _ _ _ h := h
  type _ _ _ _ h := h
  elem _ _ _ _ h := h
  instr _ _ _ _ h := h
  cast _ _ _ _ _ _ h := h
  stop _ _ _ _ h := h
  report _ _ _ _ h := h

/-- **A walk that comes to an end** comes to the same one if it may go deeper. -/
theorem visitBlock_includes {depth' : Nat} (hle : depth ≤ depth') :
    Includes (visitBlock ctx depth b) (visitBlock ctx depth' b) := by
  induction depth generalizing b depth' with
  | zero =>
    intro s made hrun
    rw [visitBlock, runOn_lookUp] at hrun
    cases hrun
  | succ depth ih =>
    obtain ⟨depth', rfl⟩ : ∃ d, depth' = d + 1 := ⟨depth' - 1, by omega⟩
    have h := includes ctx.config
    -- only what is nested is walked to another depth
    refine h.andThen (h.look _) fun block => h.forM (fun x => ?_) _
    refine h.andThen (h.look _) fun stmt => h.andThen (fun _ _ hrun => hrun) fun _ => ?_
    exact h.forM (fun b => ih (Nat.le_of_succ_le_succ hle)) _

/-- A check that comes to an end has come to the end of its walk. -/
theorem exists_walk_of_pass {s left : CheckState} {answer : Except Fatal Unit}
    (hrun : runOn (pass ctx) s = .ok (answer, left)) :
    ∃ made, runOn (visitBlock ctx s.program.nestingBound Program.root) s = .ok made := by
  rw [runOn_pass, runOn_bind] at hrun
  cases hwalk : runOn (visitBlock ctx s.program.nestingBound Program.root) s with
  | error fault => rw [hwalk] at hrun; cases hrun
  | ok made => exact ⟨made, rfl⟩

end Checker

namespace Program

open Checker

variable {ctx : CheckContext} {p : Program} {ops : List Operation}
  {growths : List Storage.Growth} {ids : List NodeId}

/-- **A check is safe.** Let a program be made by operations and the storage be grown. Let the
values exist that instructions read, pointers apart that need no type, and the blocks that they
nest, and the storage nodes that global pointers address and child pointers lead to; and let no
block lie in itself that can be reached. Then the check comes to an end, under any settings and for
any signature, and it leaves the blocks nested as they were. The bound on the depth of its walk, and
of the program order that it looks through in the end, makes no difference. -/
theorem typecheck_safe (hp : ofOperations ops = .ok p)
    (ht : Storage.empty.growAll growths = .ok (ctx.storage, ids))
    (hgrounded : p.Grounded) (hnested : p.Nested)
    (hnodes : ∀ x < p.size, ∀ k ∈ (p.instrAt x).nodes, k < ctx.storage.size)
    (hacyclic : p.Acyclic) :
    ∃ o, p.typecheck ctx = .ok o ∧ (∀ b b', o.program.Nests b b' ↔ p.Nests b b') ∧
      ∀ depth ≥ p.nestingBound,
        runOn (visitBlock ctx depth root) { program := p } =
          runOn (visitBlock ctx p.nestingBound root) { program := p } ∧
        o.program.contents depth root = o.program.reachable := by
  have hchecks : p.Checkable ctx.storage :=
    ⟨coherent_ofOperations hp, hgrounded, hnested, Storage.linked_growAll Storage.linked_empty ht,
      hnodes⟩
  obtain ⟨answer, left, htype, hsteps⟩ := typecheck_steps hchecks hacyclic
  have hcoherent := Steps.coherent hsteps hchecks.coherent
  have hext := (Steps.erases hsteps hchecks.coherent).extends'
  refine ⟨_, htype, fun _ _ => hext.nests_iff hchecks.coherent hcoherent, ?_⟩
  intro depth hdepth
  constructor
  · -- the walk came to an end, since the check did
    obtain ⟨_, _, hrun, -⟩ := exists_run_of_typecheck htype
    obtain ⟨made, hwalk⟩ := exists_walk_of_pass hrun
    rw [hwalk, visitBlock_includes hdepth _ _ hwalk]
  · -- conversions nest nothing, and so the program that is left fits the same bound
    have hfits := hext.fits hcoherent (fits_of_nested hchecks.coherent hnested hacyclic)
    have hbound : left.program.nestingBound = p.nestingBound := hext.blocks_size
    obtain ⟨hdeeper, horder⟩ := hfits.mono hdepth
    show left.program.contents depth root = left.program.contents left.program.nestingBound root
    rw [hbound, contents_eq hfits, contents_eq hdeeper, horder]

/-- A block that nothing nests, a block that both branches of a conditional share with it, and
instructions that name others, and storage nodes, which are not there. -/
def sharedOperations : List Operation :=
  [.newBlock, .newBlock, .push root (.const (.i32 1)) .dummy, .push root (.const (.f32 0)) .dummy,
    .push root (.globalPtr [1] [0]) .dummy, .push root (.childPtr 99 9 0 1) .dummy,
    .push root (.loopIndex 99 0) .dummy, .push root (.storageOp .append 9 (some 99) none) .dummy,
    .push 2 (.binary .add 0 1) .dummy, .push root (.branch 0 (some 2) (some 2)) .dummy,
    .push 1 (.structFor 9 2) .dummy]

/-- What `sharedOperations` make. -/
def sharedProgram : Program where
  stmts := #[⟨0, .dummy, .scalar .i32, .const (.i32 1), root⟩,
    ⟨1, .dummy, .scalar .f32, .const (.f32 0), root⟩,
    ⟨2, .dummy, .scalar .unknown, .globalPtr [1] [0], root⟩,
    ⟨3, .dummy, .scalar .unknown, .childPtr 99 9 0 1, root⟩,
    ⟨4, .dummy, .scalar .unknown, .loopIndex 99 0, root⟩,
    ⟨5, .dummy, .scalar .unknown, .storageOp .append 9 (some 99) none, root⟩,
    ⟨6, .dummy, .scalar .unknown, .binary .add 0 1, 2⟩,
    ⟨7, .dummy, .scalar .unknown, .branch 0 (some 2) (some 2), root⟩,
    ⟨8, .dummy, .scalar .unknown, .structFor 9 2, 1⟩]
  blocks := #[⟨[0, 1, 2, 3, 4, 5, 7], none⟩, ⟨[8], none⟩, ⟨[6], some 8⟩]

/-- A storage with one leaf. -/
def leafStorage : Storage where
  nodes := #[⟨.root, .unknown, none, 0, [1]⟩, ⟨.place, .f32, some 0, 0, []⟩]

theorem typecheck_safe_shared :
    ofOperations sharedOperations = .ok sharedProgram ∧
      Storage.empty.growAll [.place 0 .f32] = .ok (leafStorage, [1]) ∧
      sharedProgram.Grounded ∧ sharedProgram.Nested ∧
      (∀ x < sharedProgram.size, ∀ k ∈ (sharedProgram.instrAt x).nodes, k < leafStorage.size) ∧
      sharedProgram.Acyclic ∧
      ∃ o, sharedProgram.typecheck ⟨{}, {}, leafStorage⟩ = .ok o ∧
        (∀ b b', o.program.Nests b b' ↔ sharedProgram.Nests b b') ∧
        ∀ depth ≥ sharedProgram.nestingBound,
          runOn (visitBlock ⟨{}, {}, leafStorage⟩ depth root) { program := sharedProgram } =
            runOn (visitBlock ⟨{}, {}, leafStorage⟩ sharedProgram.nestingBound root)
              { program := sharedProgram } ∧
          o.program.contents depth root = o.program.reachable := by
  -- the operations, the storage tree and what they refer to are small enough to evaluate
  have hops : ofOperations sharedOperations = .ok sharedProgram := by decide
  have ht : Storage.empty.growAll [.place 0 .f32] = .ok (leafStorage, [1]) := by decide
  have hgrounded : sharedProgram.Grounded := by decide
  have hnested : sharedProgram.Nested := by decide
  have hnodes : ∀ x < sharedProgram.size, ∀ k ∈ (sharedProgram.instrAt x).nodes,
      k < leafStorage.size := by decide
  have hacyclic : sharedProgram.Acyclic :=
    (coherent_ofOperations hops).acyclic_of_lt (by decide)
  exact ⟨hops, ht, hgrounded, hnested, hnodes, hacyclic,
    typecheck_safe hops ht hgrounded hnested hnodes hacyclic⟩

end Program

end TensorKernel
