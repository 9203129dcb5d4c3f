import TensorKernel.Proofs.Narrowing

/-!
# The look at the finished program

Settings can ask for a last look at the finished program, which refuses what reads a value without
a type. No rule knows of that setting, so the walk is the same with and without it
(`visitBlock_withTotality`), and all that the look does is to turn some reports into failures.

* `Program.FirstUntyped` — which failure that is: the first instruction in program order, and the
  first value that it reads;
* `typecheck_totality` — a check with the look, compared to the one without.
-/

namespace TensorKernel

variable {ctx : CheckContext} {p : Program} {u : StmtId}

/-- The same settings, with or without the look at the finished program. -/
def CheckContext.withTotality (ctx : CheckContext) (verifyTotality : Bool) : CheckContext :=
  { ctx with config := { ctx.config with verifyTotality } }

/-- The one operand that does not have to be typed: the pointer that a storage operation or a child
pointer is given. -/
def Instr.pointer? : Instr → Option StmtId
  | storageOp _ _ ptr _ => ptr
  | childPtr input _ _ _ => some input
  | _ => none

/-- **All other operands have to be typed.** -/
theorem Instr.operands_eq (i : Instr) : i.operands = i.pointer?.toList ++ i.typedOperands := by
  cases i <;> rfl

/-- **The first value without a type that is read** along `order`: `u` reads it, apart from a
pointer, after values that have types, and so do the instructions before `u`. -/
structure Program.FirstUntyped (p : Program) (order : List StmtId) (u x : StmtId) : Prop where
  consumer : ∃ front back, order = front ++ u :: back ∧
    ∀ v ∈ front, ∀ y ∈ (p.instrAt v).typedOperands, (p.typeAt y).elem.isUnknown = false
  operand : ∃ front back,
    (p.instrAt u).operands = (p.instrAt u).pointer?.toList ++ (front ++ x :: back) ∧
      ∀ y ∈ front, (p.typeAt y).elem.isUnknown = false
  untyped : (p.typeAt x).elem.isUnknown = true

namespace Checker

private theorem known_of_eq_none {elem : ElementType} {fatal : Fatal}
    (h : (if elem.isUnknown then some fatal else none) = none) : elem.isUnknown = false := by
  split at h
  · cases h
  · next hknown => exact Bool.eq_false_iff.2 hknown

/-- What the look finds is the first value without a type. -/
theorem firstUntyped_of_unresolved? {fatal : Fatal} (h : unresolved? p = some fatal) :
    ∃ u x, fatal = ⟨u, .unresolved x⟩ ∧
      p.FirstUntyped (p.order p.nestingBound Program.root) u x := by
  obtain ⟨front, u, back, horder, hfound, hfront⟩ := List.findSome?_eq_some_iff.1 h
  obtain ⟨before, x, after, hreads, hx, hbefore⟩ := List.findSome?_eq_some_iff.1 hfound
  split at hx
  · next huntyped =>
    cases hx
    -- everything in front of the two was found typed
    refine ⟨u, x, rfl, ⟨front, back, horder, fun v hv y hy => ?_⟩,
      ⟨before, after, ?_, fun y hy => ?_⟩, huntyped⟩
    · exact known_of_eq_none (List.findSome?_eq_none_iff.1 (hfront v hv) y hy)
    · rw [Instr.operands_eq, hreads]
    · exact known_of_eq_none (hbefore y hy)
  · cases hx

/-- With the look and without it a check makes the same steps. -/
theorem sameSteps (config : Config) (verifyTotality : Bool) :
    Parallel config { config with verifyTotality } fun step step' => step = step' where
  lowering op := by cases op <;> rfl
  answer _ := rfl
  andThen h hnext := by rw [h, funext hnext]
  look _ := rfl
  type _ _ := rfl
  elem _ _ := rfl
  instr _ _ := rfl
  cast _ _ _ _ := rfl
  stop _ _ := rfl
  report _ _ := rfl

/-- **The walk is the same**, whether or not the program will be looked at in the end. -/
theorem visitBlock_withTotality {verifyTotality : Bool} {depth : Nat} {b : BlockId} :
    visitBlock (ctx.withTotality verifyTotality) depth b = visitBlock ctx depth b :=
  ((sameSteps ctx.config verifyTotality).visitBlock ctx.storage ctx.signature depth b).symm

theorem runOn_pass_withTotality {verifyTotality : Bool} {s : CheckState} :
    runOn (pass (ctx.withTotality verifyTotality)) s =
      runOn (visitBlock ctx s.program.nestingBound Program.root >>= fun _ =>
        if verifyTotality then Checker.verifyTotality else pure ()) s := by
  rw [runOn_pass, visitBlock_withTotality]
  rfl

end Checker

namespace Program

open Checker

/-- **The look at the finished program only filters.** If the check that looks comes to an end, so
does the one that does not, with the same program and the same warnings. If that one fails, the
other one fails in the same way. If it passes, the other one passes with the same report exactly if
every value has a type that is read by an instruction that can be reached; otherwise it fails at
the first such instruction in program order, and names the first such value that it reads. -/
theorem typecheck_totality {o' : Outcome} (h : p.typecheck (ctx.withTotality true) = .ok o') :
    ∃ o, p.typecheck (ctx.withTotality false) = .ok o ∧
      o'.program = o.program ∧ o'.warnings = o.warnings ∧
      (∀ failure, o.result = .error failure → o' = o) ∧
      ∀ report, o.result = .ok report → ∃ order, o.program.reachable = .ok order ∧
        (o'.result = .ok report ↔ ∀ u ∈ order, ∀ x ∈ (o.program.instrAt u).typedOperands,
          (o.program.typeAt x).elem.isUnknown = false) ∧
        (o'.result ≠ .ok report → ∃ u x, o.program.FirstUntyped order u x ∧
          o'.result = .error ⟨u, o.program.spanAt u, .unresolved x, (o.program.stmtAt u).text,
            report.warnings⟩) := by
  obtain ⟨answer', left', hon, rfl⟩ := exists_run_of_typecheck h
  have hoff : runOn (pass (ctx.withTotality false)) { program := p } = _ := runOn_pass_withTotality
  have hpass := hon
  rw [runOn_pass_withTotality] at hpass
  rw [runOn_bind] at hpass hoff
  cases hwalk : runOn (visitBlock ctx p.nestingBound root) { program := p } with
  | error fault => rw [hwalk] at hpass; cases hpass
  | ok made =>
    obtain ⟨answer, left⟩ := made
    rw [hwalk] at hpass hoff
    cases answer with
    | error fatal =>
      -- neither check goes on
      have hsame : p.typecheck (ctx.withTotality false) = p.typecheck (ctx.withTotality true) :=
        congrArg (· >>= _) (hoff.trans (hpass.trans hon.symm))
      refine ⟨_, hsame.trans h, rfl, rfl, fun _ _ => rfl, fun report hok => ?_⟩
      cases hpass
      cases hok
    | ok =>
      -- the walk has passed, and without the look at the end that is the result
      have hok : p.typecheck (ctx.withTotality false) = .ok (outcome (.ok ()) left) := by
        rw [typecheck, hoff]
        rfl
      have hlook : Ends True left verifyTotality _ := verifyTotality_ends (.inl trivial)
      obtain ⟨hfits, rfl, rfl⟩ := hlook.of_runOn hpass
      refine ⟨_, hok, rfl, ?_, fun failure hfail => (by cases hfail), ?_⟩
      · cases unresolved? left'.program <;> rfl
      rintro _ ⟨⟩
      refine ⟨_, contents_eq hfits, ?_⟩
      change (_ ↔ left'.program.Total) ∧ _
      rw [← unresolved?_eq_none_iff]
      cases hfound : unresolved? left'.program with
      | none => exact ⟨⟨fun _ => rfl, fun _ => rfl⟩, fun hne => absurd rfl hne⟩
      | some fatal =>
        obtain ⟨u, x, rfl, hfirst⟩ := firstUntyped_of_unresolved? hfound
        exact ⟨⟨fun hpass => (by cases hpass), fun hnone => (by cases hnone)⟩,
          fun _ => ⟨u, x, hfirst, rfl⟩⟩

/-- A slot that nothing was stored to, as the pointer of a storage operation and as an operand of a
sum, for which it is converted. -/
def emptySlotProgram : Program where
  stmts := #[⟨0, .dummy, .scalar .i32, .const (.i32 1), root⟩,
    ⟨1, .dummy, .scalar .unknown, .alloca, root⟩,
    ⟨2, .dummy, .scalar .unknown, .storageOp .append 0 (some 1) none, root⟩,
    ⟨3, .dummy, .scalar .unknown, .binary .add 0 1, root⟩]
  blocks := #[⟨[0, 1, 2, 3], none⟩]

/-- It is the conversion, number 4, that is said to read a value without a type. -/
theorem typecheck_totality_empty_slot :
    ∃ o', emptySlotProgram.typecheck (CheckContext.withTotality ⟨{}, {}, .empty⟩ true) = .ok o' ∧
      o'.result = .error ⟨4, .dummy, .unresolved 1, "<i32 x1> $4 = cast_value<i32> $1", []⟩ ∧
      ∃ o, emptySlotProgram.typecheck (CheckContext.withTotality ⟨{}, {}, .empty⟩ false) = .ok o ∧
        o'.program = o.program ∧ o'.warnings = o.warnings ∧
        (∀ failure, o.result = .error failure → o' = o) ∧
        ∀ report, o.result = .ok report → ∃ order, o.program.reachable = .ok order ∧
          (o'.result = .ok report ↔ ∀ u ∈ order, ∀ x ∈ (o.program.instrAt u).typedOperands,
            (o.program.typeAt x).elem.isUnknown = false) ∧
          (o'.result ≠ .ok report → ∃ u x, o.program.FirstUntyped order u x ∧
            o'.result = .error ⟨u, o.program.spanAt u, .unresolved x, (o.program.stmtAt u).text,
              report.warnings⟩) := by
  have hfails : (emptySlotProgram.typecheck (CheckContext.withTotality ⟨{}, {}, .empty⟩ true)).map
      (fun o => o.result.map Report.casts) =
        .ok (.error ⟨4, .dummy, .unresolved 1, "<i32 x1> $4 = cast_value<i32> $1", []⟩) := by
    decide +kernel
  cases ho : emptySlotProgram.typecheck (CheckContext.withTotality ⟨{}, {}, .empty⟩ true) with
  | error fault => rw [ho] at hfails; cases hfails
  | ok o' =>
    rw [ho] at hfails
    have hfails : o'.result.map Report.casts = _ := Except.ok.inj hfails
    refine ⟨o', rfl, ?_, typecheck_totality ho⟩
    cases hresult : o'.result with
    | ok report => rw [hresult] at hfails; cases hfails
    | error failure =>
      rw [hresult] at hfails
      exact congrArg _ (Except.error.inj hfails)

end Program

end TensorKernel
