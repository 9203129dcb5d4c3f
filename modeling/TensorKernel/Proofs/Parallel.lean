import TensorKernel.Check.Outcome
import TensorKernel.Check.Steps
import TensorKernel.Proofs.ValueRules

/-!
# Two checks side by side

Two settings that lower divisions alike lead a check through the same steps; they differ at most
in what is made of a reported loss. A relation between two steps that holds of the primitive steps
and is kept by sequencing is therefore a relation between two whole checks (`Parallel.pass`), and
the rules are gone through here once, whatever the relation says. With both settings the same it
is a property of one check.

* `Parallel` — what is asked of the relation, one field for each primitive step;
* `Parallel.rule` — every typing rule is related to itself;
* `Checker.Balanced` — **every instruction that is added is counted as a conversion**, whatever
  program is checked and however the check ends (`casts_eq_growth`).
-/

namespace TensorKernel.Checker

/-- A relation between the steps of a check under `config` and those of a check under `config'`. -/
structure Parallel (config config' : Config) (R : ∀ {α : Type}, Checker α → Checker α → Prop) :
    Prop where
  /-- Divisions are lowered alike. -/
  lowering : ∀ op : BinaryOp, op.lowering? config = op.lowering? config'
  answer : ∀ {α : Type} (a : α), R (pure a) (pure a)
  andThen : ∀ {α β : Type} {step step' : Checker α} {next next' : α → Checker β},
    R step step' → (∀ a, R (next a) (next' a)) → R (step >>= next) (step' >>= next')
  look : ∀ {α : Type} (ask : Program → Except Fault α), R (lookUp ask) (lookUp ask)
  type : ∀ id t, R (setType id t) (setType id t)
  elem : ∀ id t, R (setElem id t) (setElem id t)
  instr : ∀ id i, R (setInstr id i) (setInstr id i)
  cast : ∀ side anchor input target,
    R (insertCast side anchor input target) (insertCast side anchor input target)
  stop : ∀ {α : Type} id error, R (stopAt (α := α) id error) (stopAt id error)
  report : ∀ id loss, R (reportLoss config id loss) (reportLoss config' id loss)

namespace Parallel

variable {config config' : Config} {ctx ctx' : CheckContext} {u : StmtId} {α β : Type}
  {R : ∀ {α : Type}, Checker α → Checker α → Prop}

theorem typeOf (h : Parallel config config' R) (x : StmtId) : R (typeOf x) (typeOf x) :=
  h.look _

theorem elemOf (h : Parallel config config' R) (x : StmtId) : R (elemOf x) (elemOf x) :=
  h.andThen (h.look _) fun _ => h.answer _

theorem choose {c : Prop} [Decidable c] {first first' second second' : Checker α}
    (h₁ : R first first') (h₂ : R second second') :
    R (if c then first else second) (if c then first' else second') := by
  split
  · exact h₁
  · exact h₂

/-- A check that stops under a condition and goes on otherwise. -/
theorem stopIf (h : Parallel config config' R) {c : Prop} [Decidable c] {error : TypeError}
    {next next' : Unit → Checker β} (hnext : ∀ a, R (next a) (next' a)) :
    R (if c then stopAt u error >>= next else next ()) (if c then stopAt u error >>= next' else
      next' ()) :=
  choose (h.andThen (h.stop _ _) hnext) (hnext ())

theorem forM (h : Parallel config config' R) {f f' : α → Checker Unit} (hf : ∀ a, R (f a) (f' a))
    (l : List α) : R (l.forM f) (l.forM f') := by
  induction l with
  | nil => exact h.answer ()
  | cons a l ih => exact h.andThen (hf a) fun _ => ih

/-! ### The rules for values -/

theorem convert (h : Parallel config config' R) (d : StmtId) (elem target : ElementType) :
    R (convert u d elem target) (convert u d elem target) :=
  choose (h.answer d) (h.cast _ _ _ _)

theorem coerce (h : Parallel config config' R) (target : ElementType)
    (accepts : ElementType → Bool) (d : StmtId) :
    R (coerce target accepts d) (coerce target accepts d) :=
  h.andThen (h.elemOf d) fun _ => choose (h.answer d) (h.cast _ _ _ _)

theorem checkUnary (h : Parallel config config' R) (op : UnaryOp) (d : StmtId) :
    R (checkUnary u op d) (checkUnary u op d) :=
  h.andThen (h.typeOf d) fun _ => h.stopIf fun _ => h.type _ _

theorem lowerOperands (h : Parallel config config' R) (op : BinaryOp) (lhs rhs : StmtId) :
    R (lowerOperands config op lhs rhs) (lowerOperands config' op lhs rhs) := by
  unfold Checker.lowerOperands
  rw [h.lowering]
  cases op.lowering? config' with
  | none => exact h.answer _
  | some lowering =>
    exact h.andThen (h.coerce _ _ lhs) fun _ => h.andThen (h.coerce _ _ rhs) fun _ => h.answer _

theorem combine (h : Parallel config config' R) (op : BinaryOp) (lhs rhs : StmtId) :
    R (combine u op lhs rhs) (combine u op lhs rhs) := by
  refine h.andThen (h.elemOf lhs) fun lhsElem => h.andThen (h.elemOf rhs) fun rhsElem => ?_
  refine h.andThen (h.convert lhs _ _) fun l => h.andThen (h.convert rhs _ _) fun r => ?_
  refine h.andThen (h.instr u _) fun _ => ?_
  refine h.andThen (h.typeOf l) fun lhsType => h.andThen (h.typeOf r) fun rhsType => ?_
  exact h.stopIf fun _ => h.stopIf fun _ => h.type u _

theorem checkBinary (h : Parallel config config' R) (op : BinaryOp) (lhs rhs : StmtId) :
    R (checkBinary config u op lhs rhs) (checkBinary config' u op lhs rhs) := by
  have hrest : ∀ _ : Unit, R (Checker.lowerOperands config op lhs rhs >>= fun x =>
        Checker.combine u x.1 x.2.1 x.2.2)
      (Checker.lowerOperands config' op lhs rhs >>= fun x =>
        Checker.combine u x.1 x.2.1 x.2.2) :=
    fun _ => h.andThen (h.lowerOperands op lhs rhs) fun x => h.combine x.1 x.2.1 x.2.2
  rw [checkBinary_eq, checkBinary_eq]
  refine h.andThen (h.elemOf lhs) fun lhsElem => choose ?_ (hrest ())
  exact h.andThen (h.elemOf rhs) fun rhsElem => h.stopIf hrest

theorem checkTernary (h : Parallel config config' R) (op : TernaryOp)
    (cond onTrue onFalse : StmtId) :
    R (checkTernary u op cond onTrue onFalse) (checkTernary u op cond onTrue onFalse) := by
  unfold Checker.checkTernary
  refine h.stopIf fun _ => ?_
  refine h.andThen (h.typeOf cond) fun condType => ?_
  refine h.andThen (h.typeOf onTrue) fun trueType => ?_
  refine h.andThen (h.typeOf onFalse) fun falseType => ?_
  refine h.stopIf fun _ => h.stopIf fun _ => ?_
  refine h.andThen (h.convert onTrue _ _) fun t => h.andThen (h.convert onFalse _ _) fun f => ?_
  exact h.andThen (h.instr u _) fun _ => h.type u _

theorem checkShuffle (h : Parallel config config' R) (lanes : List Lane) :
    R (checkShuffle u lanes) (checkShuffle u lanes) := by
  cases lanes with
  | nil => exact h.stop _ _
  | cons first lanes => exact h.andThen (h.elemOf _) fun _ => h.elem _ _

theorem checkRangeAssumption (h : Parallel config config' R) (input base : StmtId) :
    R (checkRangeAssumption u input base) (checkRangeAssumption u input base) :=
  h.andThen (h.typeOf input) fun _ => h.andThen (h.typeOf base) fun _ => h.stopIf fun _ =>
    h.type _ _

/-! ### The rules for memory -/

theorem requireScalar (h : Parallel config config' R) (access : Access) :
    R (requireScalar u access) (requireScalar u access) :=
  h.andThen (h.typeOf u) fun _ => choose (h.stop _ _) (h.answer ())

theorem checkLocalLoad (h : Parallel config config' R) (slot : StmtId) :
    R (checkLocalLoad u slot) (checkLocalLoad u slot) :=
  h.andThen (h.requireScalar _) fun _ => h.andThen (h.typeOf slot) fun _ => h.type _ _

/-- What both stores do once they know the place they store to. -/
theorem store (h : Parallel config config' R) (make : StmtId → Instr) (access : Access)
    (place : VectorType) (value : StmtId) :
    R (do
        setType u place
        let valueElem ← Checker.elemOf value
        if valueElem ≠ place.elem then
          let cast ← insertCast .before u value place.elem
          setInstr u (make cast)
        if ElementType.narrows place.elem valueElem then
          reportLoss config u ⟨access, place.elem, valueElem⟩)
      (do
        setType u place
        let valueElem ← Checker.elemOf value
        if valueElem ≠ place.elem then
          let cast ← insertCast .before u value place.elem
          setInstr u (make cast)
        if ElementType.narrows place.elem valueElem then
          reportLoss config' u ⟨access, place.elem, valueElem⟩) := by
  refine h.andThen (h.type u _) fun _ => h.andThen (h.elemOf value) fun elem => ?_
  -- the report comes last, and either stops or answers under both configurations
  have hreport : ∀ _ : Unit,
      R (if ElementType.narrows place.elem elem then
          reportLoss config u ⟨access, place.elem, elem⟩ else pure ())
        (if ElementType.narrows place.elem elem then
          reportLoss config' u ⟨access, place.elem, elem⟩ else pure ()) :=
    fun _ => choose (h.report u _) (h.answer ())
  refine choose ?_ (hreport ())
  exact h.andThen (h.cast _ _ _ _) fun _ => h.andThen (h.instr u _) hreport

theorem checkLocalStore (h : Parallel config config' R) (slot value : StmtId) :
    R (checkLocalStore config u slot value) (checkLocalStore config' u slot value) := by
  refine h.andThen (h.typeOf slot) fun slotType => choose ?_ ?_
  · exact h.andThen (h.typeOf value) fun _ => h.andThen (h.type slot _) fun _ => h.type u _
  · exact h.store (.localStore slot) .localStore slotType value

theorem checkGlobalStore (h : Parallel config config' R) (ptr value : StmtId) :
    R (checkGlobalStore config u ptr value) (checkGlobalStore config' u ptr value) :=
  h.andThen (h.typeOf ptr) fun ptrType => h.store (.globalStore ptr) .globalStore ptrType value

theorem checkAtomic (h : Parallel config config' R) (op : AtomicOp) (dest value : StmtId) :
    R (checkAtomic config u op dest value) (checkAtomic config' u op dest value) := by
  refine h.andThen (h.requireScalar _) fun _ => ?_
  refine h.andThen (h.elemOf dest) fun destElem => h.andThen (h.elemOf value) fun valueElem => ?_
  refine h.andThen (h.type u _) fun _ => choose ?_ (h.answer ())
  exact h.andThen (h.report u _) fun _ => h.andThen (h.cast _ _ _ _) fun _ => h.instr u _

theorem ofStorage (h : Parallel config config' R) (answer : Except Fault α) :
    R (ofStorage answer) (ofStorage answer) := h.look _

theorem checkArity (h : Parallel config config' R) (t : Storage) (count : Nat) (node : NodeId) :
    R (checkArity t u count node) (checkArity t u count node) := by
  refine h.andThen (h.ofStorage _) fun found => ?_
  cases found.parent with
  | none => exact h.answer ()
  | some parent =>
    exact h.andThen (h.ofStorage _) fun _ => choose (h.stop _ _) (h.answer ())

theorem checkIndex (h : Parallel config config' R) (lanes position : Nat) (index : StmtId) :
    R (checkIndex u lanes position index) (checkIndex u lanes position index) :=
  h.andThen (h.typeOf index) fun _ => h.stopIf fun _ => choose (h.stop _ _) (h.answer ())

theorem checkGlobalPtr (h : Parallel config config' R) (t : Storage) (nodes : List NodeId)
    (indices : List StmtId) :
    R (checkGlobalPtr t u nodes indices) (checkGlobalPtr t u nodes indices) := by
  cases nodes with
  | nil => exact h.stop _ _
  | cons first rest =>
    refine h.andThen (h.ofStorage _) fun _ => h.andThen (h.elem u _) fun _ => ?_
    refine h.andThen (h.forM (h.checkArity t _) _) fun _ => ?_
    exact h.forM (fun index : StmtId × Nat => h.checkIndex _ index.2 index.1) _

theorem checkArgLoad (h : Parallel config config' R) (signature : Signature) (arg : Nat) :
    R (checkArgLoad signature u arg) (checkArgLoad signature u arg) := by
  unfold Checker.checkArgLoad
  cases signature.slot? arg with
  | none => exact h.stop _ _
  | some slot => exact choose (h.stop _ _) (h.type u _)

theorem checkArgStore (h : Parallel config config' R) (signature : Signature) (arg : Nat)
    (value : StmtId) :
    R (checkArgStore signature u arg value) (checkArgStore signature u arg value) := by
  unfold Checker.checkArgStore
  cases signature.slot? arg with
  | none => exact h.stop _ _
  | some slot =>
    exact h.stopIf fun _ => h.andThen (h.elemOf value) fun _ => h.stopIf fun _ => h.type u _

theorem checkExternalPtr (h : Parallel config config' R) (bases : List StmtId) :
    R (checkExternalPtr u bases) (checkExternalPtr u bases) := by
  cases bases with
  | nil => exact h.stop _ _
  | cons first rest => exact h.andThen (h.elemOf first) fun _ => h.type u _

/-! ### The pass -/

theorem forceIndexType (h : Parallel config config' R) (x : StmtId) :
    R (forceIndexType x) (forceIndexType x) :=
  h.andThen (h.look _) fun _ => choose (h.type _ _) (h.answer ())

/-- **Every typing rule** is related to itself. -/
theorem rule (h : Parallel config config' R) (storage : Storage) (signature : Signature)
    (i : Instr) :
    R (rule ⟨config, signature, storage⟩ u i) (rule ⟨config', signature, storage⟩ u i) := by
  cases i with
  -- nothing is done under either configuration
  | alloca | const | branch | structFor | whileLoop | offloaded => exact h.answer ()
  | rangeFor first last body =>
    exact h.andThen (h.forceIndexType first) fun _ => h.forceIndexType last
  | localLoad slot => exact h.checkLocalLoad slot
  | localStore slot value => exact h.checkLocalStore slot value
  | globalLoad ptr => exact h.andThen (h.typeOf ptr) fun _ => h.type u _
  | globalStore ptr value => exact h.checkGlobalStore ptr value
  | atomic op dest value => exact h.checkAtomic op dest value
  | globalPtr nodes indices => exact h.checkGlobalPtr storage nodes indices
  -- no rule asks whether a loss is to be refused, except where it reports one
  | storageOp | loopIndex => exact h.type u _
  | unary op operand => exact h.checkUnary op operand
  | binary op lhs rhs => exact h.checkBinary op lhs rhs
  | ternary op cond onTrue onFalse => exact h.checkTernary op cond onTrue onFalse
  | shuffle lanes => exact h.checkShuffle lanes
  | assumeInRange input base low high => exact h.checkRangeAssumption input base
  | argLoad arg => exact h.checkArgLoad signature arg
  | argStore arg value => exact h.checkArgStore signature arg value
  | externalPtr bases indices => exact h.checkExternalPtr bases
  | childPtr => exact h.andThen (h.ofStorage _) fun _ => h.type u _

theorem visitBlock (h : Parallel config config' R) (storage : Storage) (signature : Signature)
    (depth : Nat) (b : BlockId) :
    R (visitBlock ⟨config, signature, storage⟩ depth b)
      (visitBlock ⟨config', signature, storage⟩ depth b) := by
  induction depth generalizing b with
  | zero => exact h.look _
  | succ depth ih =>
    refine h.andThen (h.look _) fun block => h.forM (fun x => ?_) _
    exact h.andThen (h.look _) fun s =>
      h.andThen (h.rule storage signature s.instr) fun _ => h.forM ih _

theorem verifyTotality (h : Parallel config config' R) : R verifyTotality verifyTotality := by
  refine h.andThen (h.look _) fun ids => h.forM (fun consumer => ?_) _
  refine h.andThen (h.look _) fun s => h.forM (fun operand => ?_) _
  exact h.andThen (h.elemOf operand) fun _ => choose (h.stop _ _) (h.answer ())

/-- **Two whole checks** are related as their steps are, if both have the last look or none. -/
theorem pass (h : Parallel config config' R)
    (htotality : config.verifyTotality = config'.verifyTotality) (storage : Storage)
    (signature : Signature) :
    R (pass ⟨config, signature, storage⟩) (pass ⟨config', signature, storage⟩) := by
  refine h.andThen (h.look _) fun bound => ?_
  refine h.andThen (h.visitBlock storage signature bound Program.root) fun _ => ?_
  unfold CheckContext.config
  rw [htotality]
  exact choose h.verifyTotality (h.answer ())

end Parallel

/-! ### Growth -/

/-- As many instructions are added as conversions are counted. -/
def Balanced {α : Type} (step : Checker α) : Prop :=
  ∀ s r left, runOn step s = .ok (r, left) →
    left.casts + s.program.size = s.casts + left.program.size

/-- A step that neither adds an instruction nor counts a conversion. -/
theorem balanced_of_eq {α : Type} {step : Checker α}
    (h : ∀ s r left, runOn step s = .ok (r, left) →
      left.casts = s.casts ∧ left.program.size = s.program.size) : Balanced step := by
  intro s r left hrun
  obtain ⟨hcasts, hsize⟩ := h s r left hrun
  rw [hcasts, hsize]

theorem balanced_edit {change : Program → Except Fault Program}
    (h : ∀ p q, change p = .ok q → q.size = p.size) : Balanced (edit change) := by
  apply balanced_of_eq
  intro s r left hrun
  rw [runOn_edit] at hrun
  cases hq : change s.program with
  | error fault => rw [hq] at hrun; cases hrun
  | ok q =>
    rw [hq] at hrun
    cases hrun
    exact ⟨rfl, h _ _ hq⟩

theorem Balanced.andThen {α β : Type} {step : Checker α} {next : α → Checker β}
    (h : Balanced step) (hnext : ∀ a, Balanced (next a)) : Balanced (step >>= next) := by
  intro s r left hrun
  rw [runOn_bind] at hrun
  cases hstep : runOn step s with
  | error fault => rw [hstep] at hrun; cases hrun
  | ok made =>
    obtain ⟨answer, mid⟩ := made
    rw [hstep] at hrun
    have hmid := h s answer mid hstep
    -- what stops the first half stops the whole, with nothing added after it
    cases answer with
    | error fatal => cases hrun; exact hmid
    | ok a =>
      have hleft := hnext a mid r left hrun
      omega

theorem balanced_insertCast {side : Program.Side} {anchor input : StmtId} {target : ElementType} :
    Balanced (insertCast side anchor input target) := by
  intro s r left hrun
  rw [runOn_insertCast] at hrun
  obtain ⟨type, -, hrun⟩ := Fault.bind_eq_ok_iff.1 hrun
  obtain ⟨near, -, hrun⟩ := Fault.bind_eq_ok_iff.1 hrun
  obtain ⟨⟨grown, cast⟩, hinsert, hrun⟩ := Fault.bind_eq_ok_iff.1 hrun
  obtain ⟨program, htype, hrun⟩ := Fault.bind_eq_ok_iff.1 hrun
  cases hrun
  -- the one place where a program grows
  have hgrown : grown.size = s.program.size + 1 := by
    obtain ⟨s', -, -, hstmts⟩ := Program.stmts_of_insert hinsert
    rw [Program.size, hstmts, Array.size_push, Program.size]
  show s.casts + 1 + s.program.size = s.casts + program.size
  rw [Program.size_of_modifyStmt htype, hgrown]
  omega

theorem balanced_warn {id : StmtId} {loss : PrecisionLoss} : Balanced (warn id loss) := by
  apply balanced_of_eq
  intro s r left hrun
  rw [runOn_warn] at hrun
  cases hs : s.program.stmt id with
  | error fault => rw [hs] at hrun; cases hrun
  | ok stmt =>
    rw [hs] at hrun
    cases hrun
    exact ⟨rfl, rfl⟩

/-- **Every step is balanced.** -/
theorem balanced (config : Config) : Parallel config config fun step _ => Balanced step where
  lowering _ := rfl
  answer a := balanced_of_eq fun s r left hrun => by cases hrun; exact ⟨rfl, rfl⟩
  andThen h hnext := h.andThen hnext
  look ask := by
    apply balanced_of_eq
    intro s r left hrun
    rw [runOn_lookUp] at hrun
    cases ha : ask s.program with
    | error fault => rw [ha] at hrun; cases hrun
    | ok a => rw [ha] at hrun; cases hrun; exact ⟨rfl, rfl⟩
  -- what is set is set in place
  type id t := balanced_edit fun p q h => Program.size_of_modifyStmt h
  elem id t := balanced_edit fun p q h => Program.size_of_modifyStmt h
  instr id i := balanced_edit fun p q h => Program.size_of_modifyStmt h
  cast _ _ _ _ := balanced_insertCast
  stop id error := balanced_of_eq fun s r left hrun => by cases hrun; exact ⟨rfl, rfl⟩
  report id loss := by
    unfold reportLoss
    split
    · exact balanced_of_eq fun s r left hrun => by cases hrun; exact ⟨rfl, rfl⟩
    · exact balanced_warn

/-- **What a check adds to a program is what it counts.** -/
theorem casts_eq_growth {ctx : CheckContext} {p : Program} {r : Except Fatal Unit}
    {left : CheckState} (h : runOn (pass ctx) { program := p } = .ok (r, left)) :
    left.program.size = p.size + left.casts := by
  have hleft := (balanced ctx.config).pass rfl ctx.storage ctx.signature _ r left h
  -- nothing is counted at the start
  dsimp only at hleft
  omega

end TensorKernel.Checker
