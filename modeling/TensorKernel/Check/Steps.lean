import TensorKernel.Check.State

/-!
# What the steps of a check do

One equation for each step a rule is put together from: what `runOn` makes of a
state. A step that follows another one is run on the state the first one leaves
(`runOn_bind`), and is not run at all if the first one stopped.

* reading (`runOn_lookUp`, `runOn_typeOf`, `runOn_elemOf`) leaves the state as it is;
* `runOn_edit` and the equations for `setType`, `setElem` and `setInstr` leave
  warnings and counts as they are;
* `runOn_insertCast` adds one instruction and counts it;
* `runOn_warn` adds one warning and leaves program and count as they are;
* `runOn_stopAt` leaves everything as it is.
-/

namespace TensorKernel.Checker

variable {α β : Type} (s : CheckState)

/-! ### Sequencing -/

@[simp] theorem runOn_pure (a : α) : runOn (pure a) s = .ok (.ok a, s) := rfl

theorem runOn_bind (step : Checker α) (next : α → Checker β) :
    runOn (step >>= next) s =
      match runOn step s with
      | .error fault => .error fault
      | .ok (.error fatal, left) => .ok (.error fatal, left)
      | .ok (.ok a, left) => runOn (next a) left := by
  change (step.run.run s).bind _ = _
  unfold runOn
  cases step.run.run s with
  | error fault => rfl
  | ok made =>
    obtain ⟨answer, left⟩ := made
    cases answer <;> rfl

@[simp] theorem runOn_stopAt (id : StmtId) (error : TypeError) :
    runOn (stopAt (α := α) id error) s = .ok (.error ⟨id, error⟩, s) := rfl

@[simp] theorem runOn_ite (c : Prop) [Decidable c] (first second : Checker α) :
    runOn (if c then first else second) s = if c then runOn first s else runOn second s := by
  split <;> rfl

/-! ### Reading -/

@[simp] theorem runOn_lookUp (ask : Program → Except Fault α) :
    runOn (lookUp ask) s = (ask s.program).map fun a => (.ok a, s) := by
  change (ask s.program).bind _ = _
  cases ask s.program <;> rfl

@[simp] theorem runOn_typeOf (id : StmtId) :
    runOn (typeOf id) s = (s.program.typeOf id).map fun type => (.ok type, s) :=
  runOn_lookUp s _

@[simp] theorem runOn_elemOf (id : StmtId) :
    runOn (elemOf id) s = (s.program.typeOf id).map fun type => (.ok type.elem, s) := by
  rw [elemOf, runOn_bind, runOn_typeOf]
  cases s.program.typeOf id <;> rfl

/-! ### Changing -/

@[simp] theorem runOn_update (change : Program → Except Fault (Program × α)) :
    runOn (update change) s =
      (change s.program).map fun (program, a) => (.ok a, { s with program }) := by
  change (change s.program).bind _ = _
  cases change s.program <;> rfl

@[simp] theorem runOn_edit (change : Program → Except Fault Program) :
    runOn (edit change) s =
      (change s.program).map fun program => (.ok (), { s with program }) := by
  rw [edit, runOn_update]
  cases h : change s.program <;> rfl

@[simp] theorem runOn_setType (id : StmtId) (type : VectorType) :
    runOn (setType id type) s =
      (s.program.setType id type).map fun program => (.ok (), { s with program }) :=
  runOn_edit s _

@[simp] theorem runOn_setElem (id : StmtId) (elem : ElementType) :
    runOn (setElem id elem) s =
      (s.program.setElem id elem).map fun program => (.ok (), { s with program }) :=
  runOn_edit s _

@[simp] theorem runOn_setInstr (id : StmtId) (instr : Instr) :
    runOn (setInstr id instr) s =
      (s.program.setInstr id instr).map fun program => (.ok (), { s with program }) :=
  runOn_edit s _

/-! ### Conversions and warnings -/

/-- A conversion is one new instruction, typed and counted; nothing is warned of. -/
theorem runOn_insertCast (side : Program.Side) (anchor input : StmtId) (target : ElementType) :
    runOn (insertCast side anchor input target) s = do
      let type ← s.program.typeOf input
      let near ← s.program.stmt anchor
      let (grown, cast) ←
        s.program.insert side anchor (.unary (.cast target true) input) near.span
      let program ← grown.setType cast ⟨type.width, target⟩
      return (.ok cast, { s with program, casts := s.casts + 1 }) := by
  rw [insertCast, runOn_bind, runOn_typeOf]
  cases s.program.typeOf input with
  | error fault => rfl
  | ok type =>
    change runOn (lookUp (·.stmt anchor) >>= _) s = _
    rw [runOn_bind, runOn_lookUp]
    cases s.program.stmt anchor with
    | error fault => rfl
    | ok near =>
      change runOn (update (·.insert side anchor (.unary (.cast target true) input) near.span)
        >>= _) s = s.program.insert side anchor (.unary (.cast target true) input) near.span >>= _
      rw [runOn_bind, runOn_update]
      cases s.program.insert side anchor (.unary (.cast target true) input) near.span with
      | error fault => rfl
      | ok made =>
        obtain ⟨grown, cast⟩ := made
        change runOn (setType cast ⟨type.width, target⟩ >>= _) { s with program := grown } =
          grown.setType cast ⟨type.width, target⟩ >>= _
        rw [runOn_bind, runOn_setType]
        cases grown.setType cast ⟨type.width, target⟩ <;> rfl

@[simp] theorem runOn_warn (id : StmtId) (loss : PrecisionLoss) :
    runOn (warn id loss) s =
      (s.program.stmt id).map fun stmt =>
        (.ok (), { s with warnings := s.warnings ++ [⟨id, stmt.span, loss, stmt.text⟩] }) := by
  rw [warn, runOn_bind, runOn_lookUp]
  cases s.program.stmt id <;> rfl

/-- A loss is fatal exactly if it is a narrowing and narrowings are denied. -/
theorem runOn_reportLoss (config : Config) (id : StmtId) (loss : PrecisionLoss) :
    runOn (reportLoss config id loss) s =
      if ElementType.narrows loss.target loss.value ∧ config.narrowing = .deny then
        .ok (.error ⟨id, .precisionLoss loss⟩, s)
      else runOn (warn id loss) s := by
  simp [reportLoss]

end TensorKernel.Checker
