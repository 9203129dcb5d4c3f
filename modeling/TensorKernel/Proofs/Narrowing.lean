import TensorKernel.Proofs.Parallel
import TensorKernel.Proofs.Walk

/-!
# Denying narrowings

A check that denies narrowings is the check that warns of them, cut at the first one. The two go
through the same steps (`Parallel`), and the only step in which they differ is the report of a
loss: there the one warns and goes on, the other stops with the same words. `CutShort` says of two
steps that the second one is the first one, cut where it first warns of a narrowing; it is kept by
sequencing (`CutShort.andThen`) because what follows a step adds its warnings at the end.

`typecheck_deny` reads this off for whole checks, whether they pass or not and whatever program is
checked, as long as the check that warns comes to an end.
-/

namespace TensorKernel

/-- The warnings of a check that passed, or that were given before it failed. -/
def Outcome.warnings (o : Outcome) : List Warning :=
  match o.result with
  | .ok report => report.warnings
  | .error failure => failure.warnings

/-- The same settings, with another mind about narrowings. -/
def CheckContext.withNarrowing (ctx : CheckContext) (narrowing : Narrowing) : CheckContext :=
  { ctx with config := { ctx.config with narrowing } }

/-- The warnings before the first narrowing. -/
def beforeNarrowing (given : List Warning) : List Warning :=
  given.takeWhile fun w => !w.isNarrowing

/-- **`o'` is `o` cut at its first warning of a narrowing**: the same outcome if there is none, and
else a failure where that warning was given, in its words and with the warnings before it. -/
def Outcome.IsCut (o o' : Outcome) : Prop :=
  match o.warnings.find? Warning.isNarrowing with
  | none => o' = o
  | some w => ∃ failure, o'.result = .error failure ∧ failure.stmt = w.stmt ∧
      failure.error = .precisionLoss w.loss ∧ failure.error.message = w.message ∧
      failure.warnings = beforeNarrowing o.warnings

/-- Nothing is cut where nothing narrows. -/
theorem beforeNarrowing_append_of_none {given more : List Warning}
    (h : given.find? Warning.isNarrowing = none) :
    beforeNarrowing (given ++ more) = given ++ beforeNarrowing more := by
  refine List.takeWhile_append_of_pos fun w hw => ?_
  have hnot := List.find?_eq_none.1 h w hw
  simpa using hnot

/-- What comes after a narrowing is cut away. -/
theorem beforeNarrowing_append_of_some {given more : List Warning} {w : Warning}
    (h : given.find? Warning.isNarrowing = some w) :
    beforeNarrowing (given ++ more) = beforeNarrowing given := by
  -- along the warnings up to the first narrowing
  induction given with
  | nil => cases h
  | cons first given ih =>
    rw [List.find?_cons] at h
    unfold beforeNarrowing at ih ⊢
    rw [List.cons_append, List.takeWhile_cons, List.takeWhile_cons]
    cases hfirst : first.isNarrowing with
    | true => rfl
    | false =>
      rw [hfirst] at h
      simp only [Bool.not_false, if_true]
      rw [ih h]

namespace Checker

variable {α β : Type}

/-- **`step'` is `step`, cut short at the first warning of a narrowing.** -/
def CutShort (step step' : Checker α) : Prop :=
  ∀ s r left, runOn step s = .ok (r, left) →
    ∃ given, left.warnings = s.warnings ++ given ∧
      match given.find? Warning.isNarrowing with
      | none => runOn step' s = .ok (r, left)
      | some w => ∃ left', runOn step' s = .ok (.error ⟨w.stmt, .precisionLoss w.loss⟩, left') ∧
          left'.warnings = s.warnings ++ beforeNarrowing given ∧ w.stmt < left'.program.size

/-- A step that warns of nothing is not cut. -/
theorem cutShort_of_eq {step : Checker α}
    (h : ∀ s r left, runOn step s = .ok (r, left) → left.warnings = s.warnings) :
    CutShort step step := by
  intro s r left hrun
  refine ⟨[], ?_, hrun⟩
  rw [List.append_nil]
  exact h s r left hrun

/-- A change of the program warns of nothing. -/
theorem cutShort_edit (change : Program → Except Fault Program) :
    CutShort (edit change) (edit change) := by
  apply cutShort_of_eq
  intro s r left hrun
  rw [runOn_edit] at hrun
  cases hq : change s.program with
  | error fault => rw [hq] at hrun; cases hrun
  | ok q => rw [hq] at hrun; cases hrun; rfl

/-- **Cuts compose**: if the first step is cut, the second one is not reached; if it is not, the
second one starts from the same state. -/
theorem CutShort.andThen {step step' : Checker α} {next next' : α → Checker β}
    (h : CutShort step step') (hnext : ∀ a, CutShort (next a) (next' a)) :
    CutShort (step >>= next) (step' >>= next') := by
  intro s r left hrun
  rw [runOn_bind] at hrun
  cases hstep : runOn step s with
  | error fault => rw [hstep] at hrun; cases hrun
  | ok made =>
    obtain ⟨answer, mid⟩ := made
    rw [hstep] at hrun
    obtain ⟨given, hgiven, hcut⟩ := h s answer mid hstep
    -- whether the first part has narrowed decides how the denying run goes on
    cases hw : given.find? Warning.isNarrowing with
    | some w =>
      rw [hw] at hcut
      obtain ⟨left', hrun', hbefore, hlt⟩ := hcut
      -- whatever comes later is warned of later
      have hmore : ∃ more, left.warnings = s.warnings ++ (given ++ more) := by
        cases answer with
        | error fatal => cases hrun; exact ⟨[], by rw [List.append_nil, hgiven]⟩
        | ok a =>
          obtain ⟨more, hmore, -⟩ := hnext a mid r left hrun
          exact ⟨more, by rw [hmore, hgiven, List.append_assoc]⟩
      obtain ⟨more, hmore⟩ := hmore
      refine ⟨given ++ more, hmore, ?_⟩
      rw [List.find?_append, hw, beforeNarrowing_append_of_some hw, Option.some_or]
      refine ⟨left', ?_, hbefore, hlt⟩
      rw [runOn_bind, hrun']
    | none =>
      -- up to here both runs are the same, so the second part decides
      rw [hw] at hcut
      dsimp only at hcut
      cases answer with
      -- the first part stops the same way in both
      | error fatal =>
        cases hrun
        refine ⟨given, hgiven, ?_⟩
        rw [hw, runOn_bind, hcut]
      -- both go on from the same state
      | ok a =>
        obtain ⟨more, hmore, hcut'⟩ := hnext a mid r left hrun
        refine ⟨given ++ more, by rw [hmore, hgiven, List.append_assoc], ?_⟩
        rw [List.find?_append, hw, beforeNarrowing_append_of_none hw, Option.none_or, runOn_bind,
          hcut, ← List.append_assoc, ← hgiven]
        exact hcut'

/-- **The one difference**: a narrowing that is warned of on one side stops the other side. -/
theorem cutShort_reportLoss {config config' : Config} (hwarn : config.narrowing = .warn)
    (hdeny : config'.narrowing = .deny) (id : StmtId) (loss : PrecisionLoss) :
    CutShort (reportLoss config id loss) (reportLoss config' id loss) := by
  intro s r left hrun
  have hwarns : ¬ (ElementType.narrows loss.target loss.value ∧ config.narrowing = .deny) := by
    rw [hwarn]
    exact fun h => nomatch h.2
  rw [runOn_reportLoss, if_neg hwarns, runOn_warn] at hrun
  cases hs : s.program.stmt id with
  | error fault => rw [hs] at hrun; cases hrun
  | ok stmt =>
    rw [hs] at hrun
    cases hrun
    refine ⟨[⟨id, stmt.span, loss, stmt.text⟩], rfl, ?_⟩
    rw [List.find?_singleton]
    by_cases hloss : ElementType.narrows loss.target loss.value = true
    · -- the instruction exists, for the warning shows it
      have hlt : id < s.program.size := (Program.lt_size_of_stmt hs).1
      have hw : Warning.isNarrowing ⟨id, stmt.span, loss, stmt.text⟩ = true := hloss
      rw [if_pos hw]
      refine ⟨s, ?_, ?_, hlt⟩
      · -- the denying run stops here, before it has warned of anything
        rw [runOn_reportLoss, if_pos ⟨hloss, hdeny⟩]
      · rw [beforeNarrowing, List.takeWhile_cons, hw]
        exact (List.append_nil _).symm
    · have hw : ¬ Warning.isNarrowing ⟨id, stmt.span, loss, stmt.text⟩ = true := hloss
      rw [if_neg hw]
      -- a conversion that does not narrow is warned of on both sides
      show runOn (reportLoss config' id loss) s = _
      rw [runOn_reportLoss, if_neg (fun h => hloss h.1), runOn_warn, hs]
      rfl

/-- **Denying narrowings cuts a check short**, and changes nothing else about it. -/
theorem cutShort (config : Config) :
    Parallel { config with narrowing := .warn } { config with narrowing := .deny }
      (fun step step' => CutShort step step') where
  lowering op := by cases op <;> rfl
  answer a := cutShort_of_eq fun s r left hrun => by cases hrun; rfl
  andThen h hnext := h.andThen hnext
  look ask := by
    apply cutShort_of_eq
    intro s r left hrun
    rw [runOn_lookUp] at hrun
    cases ha : ask s.program with
    | error fault => rw [ha] at hrun; cases hrun
    | ok a => rw [ha] at hrun; cases hrun; rfl
  type _ _ := cutShort_edit _
  elem _ _ := cutShort_edit _
  instr _ _ := cutShort_edit _
  cast side anchor input target := by
    apply cutShort_of_eq
    intro s r left hrun
    rw [runOn_insertCast] at hrun
    obtain ⟨type, -, hrun⟩ := Fault.bind_eq_ok_iff.1 hrun
    obtain ⟨near, -, hrun⟩ := Fault.bind_eq_ok_iff.1 hrun
    obtain ⟨made, -, hrun⟩ := Fault.bind_eq_ok_iff.1 hrun
    obtain ⟨program, -, hrun⟩ := Fault.bind_eq_ok_iff.1 hrun
    cases hrun
    rfl
  stop id error := cutShort_of_eq fun s r left hrun => by cases hrun; rfl
  report id loss := cutShort_reportLoss rfl rfl id loss

end Checker

namespace Program

open Checker

variable {ctx : CheckContext} {p : Program} {o : Outcome}

/-- What a check that came to an end had run, and what it reports of it. -/
theorem exists_runOn_of_typecheck (h : p.typecheck ctx = .ok o) :
    ∃ answer left, runOn (pass ctx) { program := p } = .ok (answer, left) ∧
      o.program = left.program ∧ o.warnings = left.warnings := by
  obtain ⟨answer, left, hrun, rfl⟩ := exists_run_of_typecheck h
  refine ⟨answer, left, hrun, rfl, ?_⟩
  cases answer <;> rfl

/-- **A check that denies narrowings is the check that warns of them, cut at the first one.** If
the check that warns comes to an end and warned of no narrowing, denying them changes nothing: the
result, the warnings and the program are the same. Otherwise the check fails where the first
narrowing was warned of, in the words of that warning and with the warnings before it. -/
theorem typecheck_deny (h : p.typecheck (ctx.withNarrowing .warn) = .ok o) :
    ∃ o', p.typecheck (ctx.withNarrowing .deny) = .ok o' ∧ o.IsCut o' := by
  obtain ⟨answer, left, hrun, -, hwarnings⟩ := exists_runOn_of_typecheck h
  obtain ⟨given, hgiven, hcut⟩ :=
    (cutShort ctx.config).pass rfl ctx.storage ctx.signature _ answer left hrun
  -- nothing has been warned of at the start
  change left.warnings = [] ++ given at hgiven
  rw [List.nil_append] at hgiven
  unfold Outcome.IsCut
  rw [hwarnings, hgiven]
  cases hw : given.find? Warning.isNarrowing with
  | none =>
    rw [hw] at hcut
    refine ⟨o, ?_, rfl⟩
    -- the same run, and so the same outcome
    rw [← h, typecheck, typecheck]
    exact congrArg (· >>= _) (hcut.trans hrun.symm)
  | some w =>
    rw [hw] at hcut
    obtain ⟨left', hrun', hbefore, hlt⟩ := hcut
    refine ⟨outcome (.error ⟨w.stmt, .precisionLoss w.loss⟩) left', ?_, _, rfl, rfl, rfl, rfl,
      hbefore⟩
    rw [typecheck, Fault.bind_eq_ok_iff]
    refine ⟨_, hrun', ?_⟩
    show (CheckState.failure left' _ >>= _) = _
    rw [CheckState.failure, stmt_eq hlt]
    rfl

/-- A double that is stored to an integer slot. -/
def storeProgram : Program where
  stmts := #[⟨0, .dummy, .scalar .i32, .alloca, root⟩,
    ⟨1, .dummy, .scalar .f64, .const (.f64 0), root⟩,
    ⟨2, .dummy, .scalar .unknown, .localStore 0 1, root⟩]
  blocks := #[⟨[0, 1, 2], none⟩]

theorem typecheck_deny_store :
    ∃ o, storeProgram.typecheck (CheckContext.withNarrowing ⟨{}, {}, .empty⟩ .warn) = .ok o ∧
      o.warnings.map Warning.isNarrowing = [true] ∧
      ∃ o', storeProgram.typecheck (CheckContext.withNarrowing ⟨{}, {}, .empty⟩ .deny) = .ok o' ∧
        o.IsCut o' := by
  have hwarned : (storeProgram.typecheck (CheckContext.withNarrowing ⟨{}, {}, .empty⟩ .warn)).map
      (fun o => o.warnings.map Warning.isNarrowing) = .ok [true] := by decide +kernel
  cases ho : storeProgram.typecheck (CheckContext.withNarrowing ⟨{}, {}, .empty⟩ .warn) with
  | error fault => rw [ho] at hwarned; cases hwarned
  | ok o =>
    rw [ho] at hwarned
    exact ⟨o, rfl, Except.ok.inj hwarned, typecheck_deny ho⟩

end Program

end TensorKernel
