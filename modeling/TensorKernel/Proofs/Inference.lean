import TensorKernel.Proofs.Frame
import TensorKernel.Proofs.Tree

/-!
# Inference without conversions

`Program.infer` is the check as it would be without a program to change: along the program order it
keeps the type of every instruction, the warnings and the number of conversions, and follows the
ruling of each instruction as it was given, on the types of its own operands.

A ruling reads types as the rule does (`ruling`). A store that is its own value reads the type of
its place, and a global pointer that is its own index the element type that it has just been given.
A local store to a typed slot converts its value whenever the element types differ; promotion alone
does not tell when that is (`exists_store_converts`).

The check computes the same (`typecheck_infers`). Conversions are inserted only for operands of
the instruction that is being checked, and the rule of an instruction is applied before anything
points that instruction elsewhere, since in program order it comes once; so what a rule reads are
always types that the inference knows. `Follows` is the invariant that says so.
-/

namespace TensorKernel

/-- What a check knows, apart from the program. -/
structure Inference where
  types : TypeMap
  warnings : List (StmtId × PrecisionLoss) := []
  casts : Nat := 0

namespace Inference

variable {rulings : TypeMap → StmtId → Ruling} {i j : Inference} {u : StmtId}
  {l l' : List StmtId} {fatal : Fatal}

/-- Does what the rule of an instruction has decided. -/
def follow (i : Inference) (u : StmtId) (r : Ruling) : Inference where
  types := Ruling.typed i.types r.sets
  warnings := i.warnings ++ r.losses.map fun loss => (u, loss)
  casts := i.casts + r.casts

/-- Follows the rulings of instructions one after the other, up to the first error. -/
def run (rulings : TypeMap → StmtId → Ruling) :
    List StmtId → Inference → Except Fatal Unit × Inference
  | [], i => (.ok (), i)
  | u :: rest, i =>
    let r := rulings i.types u
    match r.verdict u with
    | .ok () => run rulings rest (i.follow u r)
    | .error fatal => (.error fatal, i.follow u r)

theorem run_append_of_ok (h : run rulings l i = (.ok (), j)) :
    run rulings (l ++ l') i = run rulings l' j := by
  -- along the first list, which is passed without an error
  induction l generalizing i with
  | nil => rw [run, Prod.mk.injEq] at h; rw [← h.2]; rfl
  | cons u l ih =>
    rw [List.cons_append, run]
    rw [run] at h
    cases hv : (rulings i.types u).verdict u with
    | ok => rw [hv] at h; exact ih h
    | error fatal => rw [hv] at h; cases h

/-- Nothing comes after an error. -/
theorem run_append_of_error (h : run rulings l i = (.error fatal, j)) :
    run rulings (l ++ l') i = (.error fatal, j) := by
  induction l generalizing i with
  | nil => cases h
  | cons u l ih =>
    rw [List.cons_append, run]
    rw [run] at h
    cases hv : (rulings i.types u).verdict u with
    | ok => rw [hv] at h; exact ih h
    | error fatal' => rw [hv] at h; exact h

/-- The instruction that comes next. -/
theorem run_append_singleton (h : run rulings l i = (.ok (), j)) :
    run rulings (l ++ [u]) i =
      ((rulings j.types u).verdict u, j.follow u (rulings j.types u)) := by
  rw [run_append_of_ok h, run]
  cases (rulings j.types u).verdict u <;> rfl

end Inference

namespace Program

/-- The ruling of an instruction as it stands in the program. -/
def rulings (p : Program) (ctx : CheckContext) (τ : TypeMap) (u : StmtId) : Ruling :=
  ruling ctx (fun x => (p.instrAt x).isConst) τ u (p.instrAt u)

/-- **The check without conversions**, along an order. -/
def infer (p : Program) (ctx : CheckContext) (order : List StmtId) :
    Except Fatal Unit × Inference :=
  Inference.run (p.rulings ctx) order { types := p.typeAt }

end Program

/-- Where the inference passes it has passed before, and went on from what it knew then. -/
theorem Program.infer_of_append {p : Program} {ctx : CheckContext} {l l' : List StmtId}
    (h : (p.infer ctx (l ++ l')).1 = .ok ()) :
    (p.infer ctx l).1 = .ok () ∧
      Inference.run (p.rulings ctx) l' (p.infer ctx l).2 = (.ok (), (p.infer ctx (l ++ l')).2) := by
  cases hfront : (p.infer ctx l).1 with
  | ok =>
    have heq : p.infer ctx l = (.ok (), (p.infer ctx l).2) := Prod.ext hfront rfl
    refine ⟨rfl, ?_⟩
    rw [← Inference.run_append_of_ok heq]
    exact Prod.ext h rfl
  | error fatal =>
    -- had it stopped, it would not have passed
    have heq : p.infer ctx l = (.error fatal, (p.infer ctx l).2) := Prod.ext hfront rfl
    have hall : p.infer ctx (l ++ l') = _ := Inference.run_append_of_error heq
    rw [hall] at h
    cases h

/-! ### What a ruling depends on -/

theorem Ruling.typed_congr {τ τ' : TypeMap} {sets : List (StmtId × VectorType)} {x : StmtId}
    (h : τ x = τ' x) : Ruling.typed τ sets x = Ruling.typed τ' sets x := by
  induction sets generalizing τ τ' with
  | nil => exact h
  | cons set sets ih =>
    refine ih ?_
    rw [Function.update_apply, Function.update_apply, h]

/-- Whether the rule of an instruction reads how wide the instruction was typed. -/
def Instr.sizesItself : Instr → Bool
  | localLoad _ | atomic _ _ _ | globalPtr _ _ | shuffle _ => true
  | _ => false

/-- **A ruling reads the types of the operands**, and of the instruction itself no more than the
width. -/
theorem ruling_congr_of_width {ctx : CheckContext} {isConst isConst' : StmtId → Bool}
    {τ τ' : TypeMap} {u : StmtId} {i : Instr}
    (hu : i.sizesItself = true → (τ u).width = (τ' u).width)
    (hτ : ∀ o ∈ i.operands, τ o = τ' o) (hconst : ∀ o ∈ i.operands, isConst o = isConst' o) :
    ruling ctx isConst τ u i = ruling ctx isConst' τ' u i := by
  -- both stores, once the place they store to is given
  have hstore : ∀ access place value, τ value = τ' value →
      Ruling.store ctx.config τ u access place value =
        Ruling.store ctx.config τ' u access place value := by
    intro access place value h
    simp only [Ruling.store, Function.update_apply, h]
  cases i with
  | alloca | const | branch | structFor | whileLoop | offloaded | argLoad | storageOp
    | loopIndex | childPtr => rfl
  | rangeFor first last body =>
    have hfilter : [first, last].filter isConst = [first, last].filter isConst' :=
      List.filter_congr fun o ho => hconst o ho
    simp only [ruling, Ruling.rangeFor, hfilter]
  | localLoad slot => simp only [ruling, Ruling.localLoad, hu rfl, hτ slot List.mem_cons_self]
  | localStore slot value =>
    have hvalue := hτ value (List.mem_cons_of_mem _ List.mem_cons_self)
    simp only [ruling, Ruling.localStore, hτ slot List.mem_cons_self, hvalue,
      hstore _ _ value hvalue]
  | globalLoad ptr => simp only [ruling, hτ ptr List.mem_cons_self]
  | globalStore ptr value =>
    have hvalue := hτ value (List.mem_cons_of_mem _ List.mem_cons_self)
    simp only [ruling, Ruling.globalStore, hτ ptr List.mem_cons_self, hstore _ _ value hvalue]
  | atomic op dest value =>
    simp only [ruling, Ruling.atomic, hu rfl, hτ dest List.mem_cons_self,
      hτ value (List.mem_cons_of_mem _ List.mem_cons_self)]
  | globalPtr nodes indices =>
    -- the first node types the pointer, in both maps alike
    cases nodes with
    | nil => rfl
    | cons first rest =>
      have hindices : ∀ sets : List (StmtId × VectorType),
          Ruling.indexErrors (Ruling.typed τ sets) (first :: rest).length indices =
            Ruling.indexErrors (Ruling.typed τ' sets) (first :: rest).length indices := by
        intro sets
        exact Ruling.indexErrors_congr fun x hx => Ruling.typed_congr (hτ x hx)
      simp only [ruling, Ruling.globalPtr, hu rfl, hindices]
  | unary op operand => simp only [ruling, Ruling.unary, hτ operand List.mem_cons_self]
  | binary op lhs rhs =>
    simp only [ruling, Ruling.binary, hτ lhs List.mem_cons_self,
      hτ rhs (List.mem_cons_of_mem _ List.mem_cons_self)]
  | ternary op cond onTrue onFalse =>
    simp only [ruling, Ruling.ternary, hτ cond List.mem_cons_self,
      hτ onTrue (List.mem_cons_of_mem _ List.mem_cons_self),
      hτ onFalse (List.mem_cons_of_mem _ (List.mem_cons_of_mem _ List.mem_cons_self))]
  | shuffle lanes =>
    cases lanes with
    | nil => rfl
    | cons first lanes =>
      simp only [ruling, Ruling.shuffle, hu rfl, hτ first.stmt List.mem_cons_self]
  | assumeInRange input base low high =>
    simp only [ruling, Ruling.assumeInRange, hτ input List.mem_cons_self,
      hτ base (List.mem_cons_of_mem _ List.mem_cons_self)]
  | argStore arg value => simp only [ruling, Ruling.argStore, hτ value List.mem_cons_self]
  | externalPtr bases indices =>
    cases bases with
    | nil => rfl
    | cons first rest => simp only [ruling, Ruling.externalPtr, hτ first List.mem_cons_self]

theorem ruling_congr {ctx : CheckContext} {isConst isConst' : StmtId → Bool} {τ τ' : TypeMap}
    {u : StmtId} {i : Instr} (hu : τ u = τ' u) (hτ : ∀ o ∈ i.operands, τ o = τ' o)
    (hconst : ∀ o ∈ i.operands, isConst o = isConst' o) :
    ruling ctx isConst τ u i = ruling ctx isConst' τ' u i :=
  ruling_congr_of_width (fun _ => congrArg VectorType.width hu) hτ hconst

/-! ### The check follows the inference -/

/-- The inference knows the types, warnings and conversions of a state. -/
structure Inference.Matches (i : Inference) (p : Program) (s : CheckState) : Prop where
  types : ∀ x < p.size, s.program.typeAt x = i.types x
  warnings : s.warnings.map Warning.subject = i.warnings
  casts : s.casts = i.casts

/-- **The state of a check that has walked `done`**, where every instruction comes once. -/
structure Follows (ctx : CheckContext) (p : Program) (done : List StmtId) (s : CheckState) :
    Prop where
  coherent : s.program.Coherent
  closed : s.program.Closed
  erases : p.Erases s.program
  /-- What has not been walked reads what it read. -/
  untouched : ∀ x < p.size, x ∉ done → s.program.instrAt x = p.instrAt x
  passed : (p.infer ctx done).1 = .ok ()
  known : (p.infer ctx done).2.Matches p s

namespace Follows

open Checker

variable {ctx : CheckContext} {p : Program} {done : List StmtId} {s s' : CheckState} {u c : StmtId}
  {r : Except Fatal Unit}

theorem start (hp : p.Coherent) (hclosed : p.Closed) : Follows ctx p [] { program := p } where
  coherent := hp
  closed := hclosed
  erases := .refl hp
  untouched _ _ _ := rfl
  passed := rfl
  known := ⟨fun _ _ => rfl, rfl, rfl⟩

theorem ready (h : Follows ctx p done s) (hu : u < s.program.size) :
    Ready p.size u s.program :=
  ⟨h.coherent, h.closed.grounded, h.erases.extends'.size_le, hu⟩

theorem lt_size (h : Follows ctx p done s) (hu : u < p.size) : u < s.program.size :=
  Nat.lt_of_lt_of_le hu h.erases.extends'.size_le

/-- No instruction became a constant or ceased to be one. -/
theorem isConst_eq (h : Follows ctx p done s) (hu : u < p.size) :
    (s.program.instrAt u).isConst = (p.instrAt u).isConst := by
  exact (h.erases.redirected u hu).isConst_eq

/-- The ruling that the check obeys is the one that the inference follows. -/
theorem ruling_eq (h : Follows ctx p done s) (hp : p.Closed) (hu : u < p.size) (hdone : u ∉ done) :
    ruling ctx (fun x => (s.program.instrAt x).isConst) s.program.typeAt u (s.program.instrAt u) =
      p.rulings ctx (p.infer ctx done).2.types u := by
  rw [h.untouched u hu hdone]
  exact ruling_congr (h.known.types u hu) (fun o ho => h.known.types o (hp.operands u hu o ho))
    fun o ho => h.isConst_eq (hp.operands u hu o ho)

/-- What the inference knows after the ruling of the next instruction. -/
theorem infer_append (h : Follows ctx p done s) :
    p.infer ctx (done ++ [u]) =
      ((p.rulings ctx (p.infer ctx done).2.types u).verdict u,
        (p.infer ctx done).2.follow u (p.rulings ctx (p.infer ctx done).2.types u)) :=
  Inference.run_append_singleton (Prod.ext h.passed rfl)

/-- The rule of the next instruction does what the inference does. -/
theorem matches_step (h : Follows ctx p done s) (hp : p.Closed) (hu : u < p.size)
    (hdone : u ∉ done)
    (hobeys : Obeys ctx.signature p.size u s (ruling ctx (fun x => (s.program.instrAt x).isConst)
      s.program.typeAt u (s.program.instrAt u)) r s') :
    r = (p.infer ctx (done ++ [u])).1 ∧ (p.infer ctx (done ++ [u])).2.Matches p s' := by
  -- the ruling that was obeyed is the one that the inference follows
  rw [h.ruling_eq hp hu hdone] at hobeys
  rw [h.infer_append]
  refine ⟨hobeys.verdict, ?_, ?_, ?_⟩
  · intro x hx
    rw [hobeys.progress.types x (h.lt_size hx)]
    exact Ruling.typed_congr (h.known.types x hx)
  · rw [hobeys.progress.warnings, h.known.warnings]
    rfl
  · rw [hobeys.progress.casts, h.known.casts]
    rfl

theorem step (h : Follows ctx p done s) (hp : p.Closed) (hu : u < p.size) (hdone : u ∉ done)
    (hobeys : Obeys ctx.signature p.size u s (ruling ctx (fun x => (s.program.instrAt x).isConst)
      s.program.typeAt u (s.program.instrAt u)) (.ok ()) s') :
    Follows ctx p (done ++ [u]) s' where
  coherent := hobeys.progress.moves.coherent h.coherent
  closed := hobeys.progress.moves.closed h.closed
  erases := h.erases.moves h.coherent hobeys.progress.moves
  untouched x hx hnot := by
    -- an instruction that is left to visit is neither a visited one nor this one
    rw [List.mem_append, not_or, List.mem_singleton] at hnot
    rw [hobeys.progress.moves.instrAt_eq h.coherent (h.lt_size hx) hnot.2]
    exact h.untouched x hx hnot.1
  passed := (h.matches_step hp hu hdone hobeys).1.symm
  known := (h.matches_step hp hu hdone hobeys).2

/-- The rule of a conversion types the conversion, and never stops. -/
theorem ruling_cast (h : Follows ctx p done s) (hc : p.size ≤ c) (hlt : c < s.program.size) :
    ∃ t, ruling ctx (fun x => (s.program.instrAt x).isConst) s.program.typeAt c
      (s.program.instrAt c) = .set c t := by
  obtain ⟨target, d, hi⟩ := Instr.isValueCast_iff.1 (h.erases.extends'.fresh c hc hlt)
  rw [hi]
  exact ⟨_, rfl⟩

/-- **Meeting a conversion** changes nothing that the inference knows. -/
theorem cast (h : Follows ctx p done s) (hc : p.size ≤ c) (hlt : c < s.program.size)
    (hobeys : Obeys ctx.signature p.size c s (ruling ctx (fun x => (s.program.instrAt x).isConst)
      s.program.typeAt c (s.program.instrAt c)) r s') :
    r = .ok () ∧ Follows ctx p done s' := by
  -- its ruling sets its own type, and it is no instruction of `p`
  obtain ⟨t, ht⟩ := h.ruling_cast hc hlt
  rw [ht] at hobeys
  refine ⟨hobeys.verdict, ?_⟩
  exact
    { coherent := hobeys.progress.moves.coherent h.coherent
      closed := hobeys.progress.moves.closed h.closed
      erases := h.erases.moves h.coherent hobeys.progress.moves
      untouched := fun x hx hnot => by
        have hne : x ≠ c := Nat.ne_of_lt (Nat.lt_of_lt_of_le hx hc)
        rw [hobeys.progress.moves.instrAt_eq h.coherent (h.lt_size hx) hne]
        exact h.untouched x hx hnot
      passed := h.passed
      known := by
        refine ⟨?_, ?_, ?_⟩
        · intro x hx
          have hne : x ≠ c := Nat.ne_of_lt (Nat.lt_of_lt_of_le hx hc)
          rw [hobeys.progress.types x (h.lt_size hx), ← h.known.types x hx]
          exact Function.update_of_ne hne _ _
        · rw [hobeys.progress.warnings, ← h.known.warnings]
          exact List.append_nil _
        · rw [hobeys.progress.casts, ← h.known.casts]
          rfl }

end Follows

/-! ### Agreement of the outcomes -/

/-- **The outcome reports what the inference found**: it passes exactly if the inference does, or
stops at the same instruction with the same error. Types, warnings and the number of conversions
agree. -/
def Outcome.Reports (o : Outcome) (p : Program) (found : Except Fatal Unit × Inference) : Prop :=
  (∀ x < p.size, o.program.typeAt x = found.2.types x) ∧
    match found.1, o.result with
    | .ok (), .ok report =>
      report.casts = found.2.casts ∧ report.warnings.map Warning.subject = found.2.warnings
    | .error fatal, .error failure =>
      failure.stmt = fatal.stmt ∧ failure.error = fatal.error ∧
        failure.warnings.map Warning.subject = found.2.warnings
    | _, _ => False

namespace Checker

variable {ctx : CheckContext} {p : Program} {all done : List StmtId} {s : CheckState} {u : StmtId}

/-- A check that stopped where the inference stops. -/
def StopsWith (ctx : CheckContext) (p : Program) (all : List StmtId) (fatal : Fatal)
    (left : CheckState) : Prop :=
  fatal.stmt < left.program.size ∧ (p.infer ctx all).1 = .error fatal ∧
    (p.infer ctx all).2.Matches p left

/-- The rule of the next instruction keeps to the inference, whether it passes or stops. -/
theorem rule_follows {excuse : Prop} (h : Follows ctx p done s) (hp : p.Closed) (hu : u < p.size)
    (hall : done ++ [u] <+: all) (hnodup : all.Nodup)
    (ht : excuse ∨ ctx.storage.Answers (s.program.instrAt u).nodes) :
    Ends excuse s (rule ctx u (s.program.instrAt u))
      (Goes s (Follows ctx p (done ++ [u])) (StopsWith ctx p all)) := by
  -- the order lists `u` once, so it was not walked before
  have hdone : u ∉ done := by
    intro hmem
    have hdisjoint := List.disjoint_of_nodup_append (hnodup.sublist hall.sublist)
    exact hdisjoint hmem List.mem_cons_self
  have hready := h.ready (h.lt_size hu)
  refine (rule_obeys hready ht).mono ?_
  intro r left hobeys
  refine ⟨hobeys.progress.size_le hready, ?_⟩
  cases r with
  | ok => exact h.step hp hu hdone hobeys
  | error fatal =>
    -- the inference stops here as well, and nothing of the rest of the order counts
    obtain ⟨herror, hmatches⟩ := h.matches_step hp hu hdone hobeys
    obtain ⟨rest, rfl⟩ := hall
    have hrest : p.infer ctx (done ++ [u] ++ rest) = p.infer ctx (done ++ [u]) :=
      (Inference.run_append_of_error (Prod.ext herror.symm rfl)).trans (Prod.ext herror rfl)
    obtain ⟨error, -, rfl⟩ := Ruling.answer_eq_error_iff.1 hobeys.verdict.symm
    refine ⟨Nat.lt_of_lt_of_le hready.lt_size (hobeys.progress.size_le hready), ?_, ?_⟩
    · rw [hrest]
      exact herror.symm
    · rw [hrest]
      exact hmatches

end Checker

namespace Program

open Checker

variable {ctx : CheckContext} {p : Program}

/-- **Conversions never influence what is inferred.** On a tree the check finds what the inference
without conversions finds along the program order: it passes or stops alike, at the same
instruction and with the same error, with the same types, the same warnings and as many
conversions as the inference counts. -/
theorem typecheck_infers (hp : p.InRange ctx.storage) (htree : p.Tree)
    (htotal : ctx.config.verifyTotality = false) :
    ∃ order o, p.reachable = .ok order ∧ p.typecheck ctx = .ok o ∧
      o.Reports p (p.infer ctx order) := by
  -- in a tree the order visits every instruction once
  have hfits := fits_of_acyclic hp.coherent hp.closed (htree.acyclic hp.coherent)
  have hnodup : (p.order p.nestingBound root).Nodup := htree.order_nodup hp.coherent .refl
  have hanswers : ∀ {done : List StmtId} {s : CheckState} {x : StmtId}, Follows ctx p done s →
      x < s.program.size → ctx.storage.Answers (s.program.instrAt x).nodes := by
    intro done s x h hx
    exact ⟨hp.linked, h.erases.nodes hp.nodes hx⟩
  -- `Follows` is kept by each step, whichever conversions are met on the way
  have hwalks : Walks False ctx p (p.order p.nestingBound root) (Follows ctx p) (fun _ => True)
      (StopsWith ctx p (p.order p.nestingBound root)) :=
    { coherent := fun h => h.coherent
      extends' := fun h => h.erases.extends'
      enter := fun _ _ _ _ _ _ => trivial
      step := fun h hall hu =>
        rule_follows h hp.closed hu hall hnodup (.inr (hanswers h (h.lt_size hu)))
      cast := fun h _ hc hlt => by
        have hready := h.ready hlt
        refine (rule_obeys hready (.inr (hanswers h hlt))).mono ?_
        intro r left hobeys
        obtain ⟨rfl, hleft⟩ := h.cast hc hlt hobeys
        exact ⟨hobeys.progress.size_le hready, hleft⟩ }
  have hgoes := hwalks.pass_goes (fun h => h.closed) hfits (.start hp.coherent hp.closed)
  -- the check comes to an end, since no fault is excused
  obtain ⟨answer, left, htype, hpost⟩ := exists_typecheck hgoes fun fatal left hpost => by
    rcases hpost with ⟨hlt, -, -⟩ | ⟨-, -, hlt⟩
    · exact hlt
    · exact hlt
  refine ⟨_, _, contents_eq hfits, htype, ?_⟩
  cases answer with
  | ok =>
    -- it passed, so the inference has passed with all of the order
    have hleft : Follows ctx p (p.order p.nestingBound root) left := hpost
    refine ⟨hleft.known.types, ?_⟩
    rw [hleft.passed]
    exact ⟨hleft.known.casts, hleft.known.warnings⟩
  | error fatal =>
    rcases hpost with ⟨-, herror, hmatches⟩ | ⟨htotal', -, -⟩
    · -- it stopped where the inference has
      refine ⟨hmatches.types, ?_⟩
      rw [herror]
      exact ⟨rfl, rfl, hmatches.warnings⟩
    · -- nothing is looked at after the walk
      rw [htotal] at htotal'
      cases htotal'

theorem typecheck_infers_loop :
    loopProgram.InRange .empty ∧ loopProgram.Tree ∧
      ∃ order o, loopProgram.reachable = .ok order ∧
        loopProgram.typecheck ⟨{ verifyTotality := false }, {}, .empty⟩ = .ok o ∧
        o.Reports loopProgram
          (loopProgram.infer ⟨{ verifyTotality := false }, {}, .empty⟩ order) :=
  ⟨loopProgram_inRange, loopProgram_tree,
    typecheck_infers loopProgram_inRange loopProgram_tree rfl⟩

/-- A store to a typed place that reads its value before it has the type of the place, and converts
it if `casts` says so. -/
def storeReadingFirst (config : Config) (τ : TypeMap) (u : StmtId) (access : Access)
    (place : VectorType) (value : StmtId) (casts : Nat) : Ruling :=
  let elem := (τ value).elem
  let reported :=
    if ElementType.narrows place.elem elem then Ruling.report config ⟨access, place.elem, elem⟩
    else {}
  { reported with sets := [(u, place)], casts }

/-- The rulings if stores read their values first, and if a local store converted only a value that
promotion with the slot converts. -/
def literalRulings (p : Program) (ctx : CheckContext) (τ : TypeMap) (u : StmtId) : Ruling :=
  match p.instrAt u with
  | .localStore slot value =>
    if (τ slot).isUnknown then p.rulings ctx τ u
    else storeReadingFirst ctx.config τ u .localStore (τ slot) value
      ((τ value).elem.castsTo (ElementType.promote (τ slot).elem (τ value).elem))
  | .globalStore ptr value =>
    storeReadingFirst ctx.config τ u .globalStore (τ ptr) value
      ((τ value).elem.castsTo (τ ptr).elem)
  | _ => p.rulings ctx τ u

/-- Two counts of the conversions cannot both be right. -/
private theorem not_reports_of_casts {o : Outcome} {k : Nat} {found : Except Fatal Unit × Inference}
    (ho : p.typecheck ctx = .ok o)
    (hcasts : (p.typecheck ctx).map (fun o => o.result.map Report.casts) = .ok (.ok k))
    (hne : found.2.casts ≠ k) : ¬ o.Reports p found := by
  rw [ho] at hcasts
  have hresult : o.result.map Report.casts = .ok k := Except.ok.inj hcasts
  rintro ⟨-, hreports⟩
  -- both outcomes are compared where they are of one kind
  split at hreports
  · next report _ hok =>
    rw [hok] at hresult
    exact hne (hreports.1.symm.trans (Except.ok.inj hresult))
  · next herror =>
    rw [herror] at hresult
    cases hresult
  · exact hreports

/-- **When stores convert is not told by promotion, nor by the types that were there before.** A
float that is stored to an integer slot has the promoted type, and is converted all the same; and a
store that is its own value has the type of its place by the time its value is read, so nothing is
converted. -/
theorem exists_store_converts :
    (∃ p order, build [.emit .alloca, .typed 0 (.scalar .i32), .emit (.const (.f64 0)),
          .emit (.localStore 0 1)] = .ok (p, [0, 0, 1, 2]) ∧
        p.InRange .empty ∧ p.Tree ∧ p.reachable = .ok order ∧
        ∀ o, p.typecheck ⟨{ verifyTotality := false }, {}, .empty⟩ = .ok o →
          ¬ o.Reports p (Inference.run
            (p.literalRulings ⟨{ verifyTotality := false }, {}, .empty⟩) order
            { types := p.typeAt })) ∧
    ∃ p order, build [.emit (.const (.i32 1)), .emit (.globalStore 0 1),
          .typed 1 (.scalar .i64)] = .ok (p, [0, 1, 1]) ∧
        p.InRange .empty ∧ p.Tree ∧ p.reachable = .ok order ∧
        ∀ o, p.typecheck ⟨{ verifyTotality := false }, {}, .empty⟩ = .ok o →
          ¬ o.Reports p (Inference.run
            (p.literalRulings ⟨{ verifyTotality := false }, {}, .empty⟩) order
            { types := p.typeAt }) := by
  let slotStore : Program :=
    { stmts := #[⟨0, .dummy, .scalar .i32, .alloca, root⟩,
        ⟨1, .dummy, .scalar .f64, .const (.f64 0), root⟩,
        ⟨2, .dummy, .scalar .unknown, .localStore 0 1, root⟩]
      blocks := #[⟨[0, 1, 2], none⟩] }
  let selfStore : Program :=
    { stmts := #[⟨0, .dummy, .scalar .i32, .const (.i32 1), root⟩,
        ⟨1, .dummy, .scalar .i64, .globalStore 0 1, root⟩]
      blocks := #[⟨[0, 1], none⟩] }
  constructor
  · have hbuild : build [.emit .alloca, .typed 0 (.scalar .i32), .emit (.const (.f64 0)),
        .emit (.localStore 0 1)] = .ok (slotStore, [0, 0, 1, 2]) := by decide
    refine ⟨slotStore, [0, 1, 2], hbuild,
      inRange_of_build hbuild Storage.linked_empty (by decide) (by decide),
      build_tree hbuild ⟨rfl, trivial, rfl, rfl, trivial⟩, by decide, ?_⟩
    -- the check inserts one conversion, promotion asks for none
    exact fun o ho => not_reports_of_casts (k := 1) ho rfl (by decide)
  · have hbuild : build [.emit (.const (.i32 1)), .emit (.globalStore 0 1),
        .typed 1 (.scalar .i64)] = .ok (selfStore, [0, 1, 1]) := by decide
    refine ⟨selfStore, [0, 1], hbuild,
      inRange_of_build hbuild Storage.linked_empty (by decide) (by decide),
      build_tree hbuild ⟨rfl, rfl, trivial, trivial⟩, by decide, ?_⟩
    -- the check inserts none, the type that the store had before asks for one
    exact fun o ho => not_reports_of_casts (k := 0) ho rfl (by decide)

end Program

end TensorKernel
