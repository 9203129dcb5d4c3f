import TensorKernel.Proofs.Build
import TensorKernel.Proofs.Revisits

/-!
# Scalar accesses

A load from a slot and an atomic operation have to be one lane wide when they are checked. What they
become is another matter. An atomic operation becomes a scalar. A load takes over the type of its
slot as it is, and a slot may have taken over the type of a wide value: then the load is wide, and a
second check refuses it (`exists_wide_access`).

`typecheck_scalars` says what there is to rely on: a scalar access is one lane wide at each of its
visits, its last visit decides its final type, and if that is one lane wide then no later check
refuses it for its width. The argument for the latter is that a check finds it as it was left, up to
its own visit (`Visits.typeAt_kept`).
-/

namespace TensorKernel

variable {ctx : CheckContext} {isConst : StmtId → Bool} {τ : TypeMap} {u x : StmtId} {i j : Instr}
  {t : VectorType}

/-! ### The rules of scalar accesses -/

/-- Whether an instruction is a load from a slot or an atomic operation. -/
def Instr.isScalarAccess : Instr → Bool
  | localLoad _ | atomic _ _ _ => true
  | _ => false

/-- The type that a scalar access takes: a load that of its slot, and an atomic operation that of
one element at its destination. -/
def Instr.accessedType (τ : TypeMap) : Instr → VectorType
  | localLoad slot => τ slot
  | atomic _ dest _ => .scalar (τ dest).elem
  | _ => .unknown

namespace Redirected

variable {R : StmtId → StmtId → Prop}

theorem isScalarAccess_eq (h : Redirected R i j) : j.isScalarAccess = i.isScalarAccess := by
  cases h <;> rfl

theorem accessedType_eq (h : Redirected R i j) : j.accessedType τ = i.accessedType τ := by
  cases h <;> rfl

end Redirected

theorem Instr.isConst_of_isScalarAccess (hi : i.isScalarAccess = true) : i.isConst = false := by
  cases i <;> first | rfl | cases hi

/-- **A scalar access that passes** was one lane wide, and gets the type that it takes. -/
theorem ruling_access (hi : i.isScalarAccess = true)
    (hpasses : (ruling ctx isConst τ u i).error = none) :
    (τ u).width = 1 ∧
      Ruling.typed τ (ruling ctx isConst τ u i).sets u = i.accessedType τ := by
  cases i with
  | localLoad slot =>
    simp only [ruling, Ruling.localLoad] at hpasses ⊢
    split at hpasses
    · cases hpasses
    · next hwidth =>
      rw [if_neg hwidth]
      exact ⟨not_not.1 hwidth, Function.update_self ..⟩
  | atomic op dest value =>
    simp only [ruling, Ruling.atomic] at hpasses ⊢
    split at hpasses
    · cases hpasses
    · next hwidth =>
      rw [if_neg hwidth]
      refine ⟨not_not.1 hwidth, ?_⟩
      -- whether or not the value is converted, the type is the same
      split <;> exact Function.update_self ..
  | _ => cases hi

/-- A scalar access that is refused for its width is wide. -/
theorem width_ne_of_nonScalar {access : Access} {width : Nat} (hi : i.isScalarAccess = true)
    (hrefused : (ruling ctx isConst τ u i).error = some (.nonScalar access width)) :
    (τ u).width ≠ 1 := by
  intro hwidth
  cases i with
  | localLoad slot =>
    rw [ruling, Ruling.localLoad, if_neg (not_not.2 hwidth)] at hrefused
    cases hrefused
  | atomic op dest value =>
    rw [ruling, Ruling.atomic, if_neg (not_not.2 hwidth)] at hrefused
    -- a denied narrowing is the one other thing that stops it
    split at hrefused
    · cases hrefused
    · unfold Ruling.report at hrefused
      split at hrefused <;> cases hrefused
  | _ => cases hi

/-- No check refuses `x` for its width, whatever the context. -/
def Program.ScalarAt (p : Program) (x : StmtId) : Prop :=
  ∀ ctx o failure, p.typecheck ctx = .ok o → o.result = .error failure → failure.stmt = x →
    ∀ access width, failure.error ≠ .nonScalar access width

namespace Checker

open Program (Steps)

variable {p q : Program} {order : List StmtId} {log front back : List Visit} {v : Visit}
  {left : CheckState} {fatal : Fatal}

section Accesses

variable (hp : p.Coherent) (hclosed : p.Closed)
include hp hclosed

/-- **A visit of a scalar access** found it one lane wide, and gave it the type that it takes. -/
theorem Visits.access (h : Visits ctx { program := p } (front ++ v :: back) left)
    (hv : v.id < p.size) (hi : (p.instrAt v.id).isScalarAccess = true) :
    (v.before.program.typeAt v.id).width = 1 ∧
      v.after.program.typeAt v.id = (p.instrAt v.id).accessedType v.before.program.typeAt := by
  have hredirected := (Steps.erases (h.of_append.1.steps hp hclosed) hp).redirected v.id hv
  rw [← hredirected.isScalarAccess_eq] at hi
  have hobeys := h.obeys hp hclosed
  rw [hobeys.progress.types v.id h.of_append.2.1, ← hredirected.accessedType_eq]
  exact ruling_access hi (Ruling.answer_eq_ok_iff.1 hobeys.verdict.symm)

/-- **What stops a check** is the error that is found at the instruction it names. -/
theorem Refuses.exists_ruling (h : Refuses ctx p order fatal) :
    ∃ log mid, Visits ctx { program := p } log mid ∧
      (ruling ctx (fun x => (mid.program.instrAt x).isConst) mid.program.typeAt fatal.stmt
        (mid.program.instrAt fatal.stmt)).error = some fatal.error ∧
      (fatal.stmt < p.size → visited p log ++ [fatal.stmt] <+: order) := by
  obtain ⟨log, mid, left, u, hlog, hlt, hrun, hall⟩ := h
  have hobeys := (rule_obeys (hlog.ready hp hclosed hlt) (.inl trivial)).of_runOn hrun
  obtain ⟨error, herror, rfl⟩ := Ruling.answer_eq_error_iff.1 hobeys.verdict.symm
  exact ⟨log, mid, hlog, herror, hall⟩

/-- **A scalar access that is one lane wide is not refused for its width**, if it stands in one
place and has a type that no store takes from it. -/
theorem scalarAt_of_width (horder : p.reachable = .ok order) (hx : x < p.size)
    (hi : (p.instrAt x).isScalarAccess = true) (hone : order.count x = 1)
    (hwidth : (p.typeAt x).width = 1)
    (hkept : (p.typeAt x).isUnknown = false ∨ p.Unstored x) : p.ScalarAt x := by
  rintro ctx o failure ho hfailed rfl access width herror
  rcases exists_refusal hp hclosed horder ho hfailed with hrefuses | ⟨_, hunresolved⟩
  · obtain ⟨log, mid, hlog, hruling, hall⟩ := hrefuses.exists_ruling hp hclosed
    -- this is its first visit, since it stands in one place
    have hfirst : failure.stmt ∉ log.map Visit.id := by
      intro hmem
      have hvisited : 0 < (visited p log).count failure.stmt :=
        List.count_pos_iff.2 (mem_visited.2 ⟨hmem, hx⟩)
      have hcount := (hall hx).sublist.count_le failure.stmt
      rw [List.count_append, List.count_singleton_self, hone] at hcount
      omega
    have hlog' : Visits ctx { program := p } ([] ++ log) mid := hlog
    have hmid : mid.program.typeAt failure.stmt = p.typeAt failure.stmt :=
      hlog'.typeAt_kept hp hclosed hx (Instr.isConst_of_isScalarAccess hi) hfirst hkept
    -- so it is found as wide as it was
    have hredirected := (Steps.erases (hlog.steps hp hclosed) hp).redirected failure.stmt hx
    refine width_ne_of_nonScalar (hredirected.isScalarAccess_eq.trans hi)
      (hruling.trans (congrArg some herror)) ?_
    rw [hmid, hwidth]
  · exact nomatch herror.symm.trans hunresolved

end Accesses

end Checker

namespace Program

open Checker

variable {p : Program} {order : List StmtId} {o : Outcome} {report : Report}

/-- **What becomes of scalar accesses** when a program passes a check. A load from a slot or an
atomic operation that can be reached was one lane wide at every visit. What its last visit gave it
is its final type, unless that is unknown and something is stored to the access itself: a load has
the type that its slot had then, and an atomic operation is a scalar. If that is one lane wide, and
the access stands in one place, then no check of the program that is left refuses it for its
width. -/
theorem typecheck_scalars {steps : List Step} {ids : List StmtId}
    (hbuild : build steps = .ok (p, ids))
    (hops : ∀ u < p.size, ∀ o ∈ (p.instrAt u).operands, o < p.size)
    (horder : p.reachable = .ok order) (ho : p.typecheck ctx = .ok o)
    (hok : o.result = .ok report) :
    ∃ log left, Visits ctx { program := p } log left ∧ visited p log = order ∧
      o.program = left.program ∧
      ∀ x ∈ order, (p.instrAt x).isScalarAccess = true →
        (∀ v ∈ log, v.id = x → (v.before.program.typeAt x).width = 1) ∧
        ∃ front v back, log = front ++ v :: back ∧ v.id = x ∧ x ∉ back.map Visit.id ∧
          ((v.after.program.typeAt x).isUnknown = false ∨ p.Unstored x →
            (∀ slot, p.instrAt x = .localLoad slot →
              o.program.typeAt x = v.before.program.typeAt slot) ∧
            (∀ op dest value, p.instrAt x = .atomic op dest value →
              o.program.typeAt x = .scalar (v.before.program.typeAt dest).elem) ∧
            ((o.program.typeAt x).width = 1 → order.count x = 1 → o.program.ScalarAt x)) := by
  have hp := build_coherent hbuild
  have hclosed : p.Closed := ⟨hops, build_nested hbuild⟩
  obtain ⟨log, left, hlog, hvisited, hprogram⟩ := exists_visits hp hclosed horder ho hok
  refine ⟨log, left, hlog, hvisited, hprogram, fun x hx hi => ?_⟩
  obtain ⟨hmem, hlt⟩ := mem_visited.1 (hvisited.symm ▸ hx)
  constructor
  · -- a visit that passes has found the access one lane wide
    rintro v hv rfl
    obtain ⟨front, back, rfl⟩ := List.append_of_mem hv
    exact (hlog.access hp hclosed hlt hi).1
  · -- from the last visit on, the type stays
    obtain ⟨front, v, back, rfl, rfl, hback⟩ := exists_last hmem
    refine ⟨front, v, back, rfl, rfl, hback, fun hkept => ?_⟩
    have hconst := Instr.isConst_of_isScalarAccess hi
    have htype := hlog.typeAt_left hp hclosed hlt hconst hback hkept
    have haccess := (hlog.access hp hclosed hlt hi).2
    rw [hprogram]
    refine ⟨?_, ?_, fun hwidth hone => ?_⟩
    · intro slot hload
      rw [htype, haccess, hload]
      rfl
    · intro op dest value hatomic
      rw [htype, haccess, hatomic]
      rfl
    · have hsteps := hlog.steps hp hclosed
      have herases := Steps.erases hsteps hp
      have hcoherent := Steps.coherent hsteps hp
      obtain ⟨final, hfinal, -, hfilter⟩ := herases.extends'.exists_reachable hcoherent horder
      refine scalarAt_of_width hcoherent (Steps.closed hsteps hclosed) hfinal
        (Nat.lt_of_lt_of_le hlt herases.extends'.size_le)
        ((herases.redirected v.id hlt).isScalarAccess_eq.trans hi) ?_ hwidth ?_
      · -- the conversions between the original instructions are not counted
        rw [← hone, ← hfilter, List.count_filter (by simpa using hlt)]
      · exact hkept.imp (htype ▸ ·) fun hunstored => hunstored.erases herases

/-- A slot to which a float is stored, which is loaded, and to which one is added. All but the float
has type `t`. -/
def accessesProgram (t : VectorType) : Program where
  stmts := #[⟨0, .dummy, t, .alloca, root⟩, ⟨1, .dummy, .scalar .f32, .const (.f32 0), root⟩,
    ⟨2, .dummy, t, .localStore 0 1, root⟩, ⟨3, .dummy, t, .localLoad 0, root⟩,
    ⟨4, .dummy, t, .atomic .add 0 1, root⟩]
  blocks := #[⟨[0, 1, 2, 3, 4], none⟩]

theorem typecheck_scalars_slot :
    ∃ o, build [.emit .alloca, .emit (.const (.f32 0)), .emit (.localStore 0 1),
        .emit (.localLoad 0), .emit (.atomic .add 0 1)] =
          .ok (accessesProgram (.scalar .unknown), [0, 1, 2, 3, 4]) ∧
      (accessesProgram (.scalar .unknown)).reachable = .ok [0, 1, 2, 3, 4] ∧
      (accessesProgram (.scalar .unknown)).typecheck ⟨{}, {}, .empty⟩ = .ok o ∧
      o.result = .ok ⟨[], 0⟩ ∧
      ∀ x ∈ [3, 4], o.program.typeAt x = .scalar .f32 ∧ o.program.ScalarAt x := by
  have hbuild : build [.emit .alloca, .emit (.const (.f32 0)), .emit (.localStore 0 1),
      .emit (.localLoad 0), .emit (.atomic .add 0 1)] =
        .ok (accessesProgram (.scalar .unknown), [0, 1, 2, 3, 4]) := by decide +kernel
  have horder : (accessesProgram (.scalar .unknown)).reachable = .ok [0, 1, 2, 3, 4] := by decide
  have ho : (accessesProgram (.scalar .unknown)).typecheck ⟨{}, {}, .empty⟩ =
      .ok ⟨accessesProgram (.scalar .f32), .ok ⟨[], 0⟩⟩ := rfl
  have htypes : ∀ x ∈ [3, 4], (accessesProgram (.scalar .f32)).typeAt x = .scalar .f32 := by decide
  obtain ⟨log, left, -, -, -, haccess⟩ := typecheck_scalars hbuild (by decide) horder ho rfl
  refine ⟨_, hbuild, horder, ho, rfl, fun x hx => ⟨htypes x hx, ?_⟩⟩
  -- each access is visited once, and nothing is stored to it
  have hscalar : ∀ x ∈ [3, 4], x ∈ [0, 1, 2, 3, 4] ∧ [0, 1, 2, 3, 4].count x = 1 ∧
      ((accessesProgram (.scalar .unknown)).instrAt x).isScalarAccess = true ∧
      (accessesProgram (.scalar .unknown)).Unstored x := by decide
  obtain ⟨hmem, hone, hi, hunstored⟩ := hscalar x hx
  obtain ⟨-, front, v, back, -, -, -, hlast⟩ := haccess x hmem hi
  obtain ⟨-, -, hadmitted⟩ := hlast (.inr hunstored)
  exact hadmitted (congrArg VectorType.width (htypes x hx)) hone

/-- `p` passes a check that leaves `x` with this width, and a second check refuses `x` for its
width. -/
def RefusedAgain (ctx : CheckContext) (p : Program) (x : StmtId) (width : Nat) : Prop :=
  ∃ o report, p.typecheck ctx = .ok o ∧ o.result = .ok report ∧
    (o.program.typeAt x).width = width ∧ ¬ o.program.ScalarAt x

theorem refusedAgain_of_checks {width : Nat} (access : Access) (casts wide : Nat)
    (h : ((p.typecheck ctx).bind fun o => (o.program.typecheck ctx).map fun again =>
      (o.result.map Report.casts, (o.program.typeAt x).width,
        again.result.mapError fun failure => (failure.stmt, failure.error))) =
          .ok (.ok casts, width, .error (x, .nonScalar access wide))) :
    p.RefusedAgain ctx x width := by
  obtain ⟨o, ho, h⟩ := Fault.bind_eq_ok_iff.1 h
  -- the first check passes, and the second one refuses what it left
  cases hagain : o.program.typecheck ctx with
  | error fault => rw [hagain] at h; cases h
  | ok again =>
    rw [hagain] at h
    obtain ⟨hcasts, hwidth, hrefused⟩ : o.result.map Report.casts = .ok casts ∧
        (o.program.typeAt x).width = width ∧
        again.result.mapError (fun failure => (failure.stmt, failure.error)) =
          .error (x, .nonScalar access wide) := by
      simpa using Except.ok.inj h
    cases hok : o.result with
    | error failure => rw [hok] at hcasts; cases hcasts
    | ok report =>
      refine ⟨o, report, ho, hok, hwidth, fun hscalar => ?_⟩
      cases hfailed : again.result with
      | ok => rw [hfailed] at hrefused; cases hrefused
      | error failure =>
        rw [hfailed] at hrefused
        obtain ⟨hstmt, herror⟩ := Prod.mk.inj (Except.error.inj hrefused)
        exact hscalar ctx again failure hagain hfailed hstmt access wide herror

/-- A slot to which a wide value is stored, and which is loaded. -/
def wideLoadProgram : Program where
  stmts := #[⟨0, .dummy, .scalar .unknown, .alloca, root⟩,
    ⟨1, .dummy, .scalar .i32, .const (.i32 1), root⟩,
    ⟨2, .dummy, .scalar .unknown, .externalPtr [1, 1] [], root⟩,
    ⟨3, .dummy, .scalar .unknown, .localStore 0 2, root⟩,
    ⟨4, .dummy, .scalar .unknown, .localLoad 0, root⟩]
  blocks := #[⟨[0, 1, 2, 3, 4], none⟩]

/-- An atomic operation on slots that are typed later, to which a wide value is stored. -/
def storedAccessProgram : Program where
  stmts := #[⟨0, .dummy, .scalar .unknown, .alloca, root⟩,
    ⟨1, .dummy, .scalar .unknown, .alloca, root⟩,
    ⟨2, .dummy, .scalar .unknown, .atomic .add 0 1, root⟩,
    ⟨3, .dummy, .scalar .i32, .const (.i32 1), root⟩,
    ⟨4, .dummy, .scalar .unknown, .externalPtr [3, 3] [], root⟩,
    ⟨5, .dummy, .scalar .unknown, .localStore 2 4, root⟩,
    ⟨6, .dummy, .scalar .unknown, .localStore 0 3, root⟩,
    ⟨7, .dummy, .scalar .unknown, .localStore 1 3, root⟩]
  blocks := #[⟨[0, 1, 2, 3, 4, 5, 6, 7], none⟩]

/-- A load in a block that two branches share, of a slot to which a wide value is stored after
both. -/
def sharedLoadProgram : Program where
  stmts := #[⟨0, .dummy, .scalar .unknown, .alloca, root⟩,
    ⟨1, .dummy, .scalar .i32, .const (.i32 1), root⟩,
    ⟨2, .dummy, .scalar .unknown, .localLoad 0, 1⟩,
    ⟨3, .dummy, .scalar .unknown, .branch 1 (some 1) none, root⟩,
    ⟨4, .dummy, .scalar .unknown, .branch 1 (some 1) none, root⟩,
    ⟨5, .dummy, .scalar .unknown, .externalPtr [1, 1] [], root⟩,
    ⟨6, .dummy, .scalar .unknown, .localStore 0 5, root⟩]
  blocks := #[⟨[0, 1, 3, 4, 5, 6], none⟩, ⟨[2], some 4⟩]

/-- **Scalar accesses that do not end scalar**: a load of a slot that has taken over the type of a
wide value, and an atomic operation that has taken it over itself. A second check refuses them, and
it refuses a load that has ended as a scalar and stands in two places. -/
theorem exists_wide_access :
    (build [.emit .alloca, .emit (.const (.i32 1)), .emit (.externalPtr [1, 1] []),
        .emit (.localStore 0 2), .emit (.localLoad 0)] = .ok (wideLoadProgram, [0, 1, 2, 3, 4]) ∧
      wideLoadProgram.reachable = .ok [0, 1, 2, 3, 4] ∧
      wideLoadProgram.RefusedAgain ⟨{}, {}, .empty⟩ 4 2) ∧
    (build [.emit .alloca, .emit .alloca, .emit (.atomic .add 0 1), .emit (.const (.i32 1)),
        .emit (.externalPtr [3, 3] []), .emit (.localStore 2 4), .emit (.localStore 0 3),
        .emit (.localStore 1 3)] = .ok (storedAccessProgram, [0, 1, 2, 3, 4, 5, 6, 7]) ∧
      storedAccessProgram.reachable = .ok [0, 1, 2, 3, 4, 5, 6, 7] ∧
      storedAccessProgram.RefusedAgain ⟨{}, {}, .empty⟩ 2 2) ∧
    build [.emit .alloca, .emit (.const (.i32 1)), .ifThen 1 [.emit (.localLoad 0)],
        .emit (.branch 1 (some 1) none), .emit (.externalPtr [1, 1] []),
        .emit (.localStore 0 5)] = .ok (sharedLoadProgram, [0, 1, 2, 3, 4, 5, 6]) ∧
      sharedLoadProgram.reachable = .ok [0, 1, 3, 2, 4, 2, 5, 6] ∧
      sharedLoadProgram.RefusedAgain ⟨{}, {}, .empty⟩ 2 1 := by
  -- a run is two checks, of the program and of what the first one leaves
  have hload : wideLoadProgram.RefusedAgain ⟨{}, {}, .empty⟩ 4 2 :=
    refusedAgain_of_checks .localLoad 0 2 (by decide +kernel)
  have hstored : storedAccessProgram.RefusedAgain ⟨{}, {}, .empty⟩ 2 2 :=
    refusedAgain_of_checks .atomic 0 2 (by decide +kernel)
  have hshared : sharedLoadProgram.RefusedAgain ⟨{}, {}, .empty⟩ 2 1 :=
    refusedAgain_of_checks .localLoad 0 2 (by decide +kernel)
  exact ⟨⟨by decide +kernel, by decide, hload⟩, ⟨by decide +kernel, by decide, hstored⟩,
    by decide +kernel, by decide, hshared⟩

end Program

end TensorKernel
