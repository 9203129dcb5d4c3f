import TensorKernel.Proofs.Ledger
import TensorKernel.Proofs.Narrowing
import TensorKernel.Proofs.Visits

/-!
# What is warned of

Under settings that warn of narrowings, a check that passes has warned of exactly what its stores
and atomic operations had to report when they were checked, and no conversion narrows silently.

Both are about the types that a rule finds, so they are said of the single visits of a check
(`Trace`). What a visit warns of is read off from the state that it found (`Visit.loss`), and
`Origin` says why it inserted a conversion; `typecheck_reports` adds both up.

A store that is its own value is the one that does not report what it found: it takes over the type
of its place before the value is looked at (`exists_store_unreported`).
-/

namespace TensorKernel

variable {ctx : CheckContext} {config : Config} {p q r start : Program} {u c d : StmtId}
  {t : ElementType} {left : CheckState}

/-! ### What a ruling warns of -/

theorem Ruling.report_losses {loss : PrecisionLoss} (hwarn : config.narrowing = .warn) :
    (Ruling.report config loss).losses = [loss] := by
  have hdeny :
      ¬ (ElementType.narrows loss.target loss.value = true ∧ config.narrowing = .deny) := by
    rw [hwarn]
    exact fun h => nomatch h.2
  rw [Ruling.report, if_neg hdeny]

/-- A store warns of a value that does not fit, unless it is that value itself. -/
theorem Ruling.store_losses {τ : TypeMap} {access : Access} {place : VectorType} {value : StmtId}
    (hwarn : config.narrowing = .warn) :
    (Ruling.store config τ u access place value).losses =
      if value ≠ u ∧ ElementType.narrows place.elem (τ value).elem = true then
        [⟨access, place.elem, (τ value).elem⟩]
      else [] := by
  rw [Ruling.store, Function.update_apply]
  by_cases hvu : value = u
  · -- its own type is by now that of the place
    have hno : ¬ (value ≠ u ∧ ElementType.narrows place.elem (τ value).elem = true) :=
      fun h => h.1 hvu
    rw [if_pos hvu, if_neg hno, ElementType.narrows_self]
    rfl
  · rw [if_neg hvu]
    by_cases hnarrows : ElementType.narrows place.elem (τ value).elem = true
    · rw [if_pos hnarrows, if_pos ⟨hvu, hnarrows⟩]
      exact Ruling.report_losses hwarn
    · have hno : ¬ (value ≠ u ∧ ElementType.narrows place.elem (τ value).elem = true) :=
        fun h => hnarrows h.2
      rw [if_neg hnarrows, if_neg hno]

/-- **A ruling warns of what its instruction has to report**, if warnings are asked for. -/
theorem losses_eq {isConst : StmtId → Bool} {τ : TypeMap} {i : Instr}
    (hwarn : ctx.config.narrowing = .warn) (herror : (ruling ctx isConst τ u i).error = none) :
    (ruling ctx isConst τ u i).losses = (i.loss τ u).toList := by
  cases i with
  | localStore slot value =>
    simp only [ruling, Ruling.localStore, Instr.loss]
    split
    · -- an untyped slot takes the type of the value
      next hunknown => simp [hunknown]
    · next hknown =>
      rw [Ruling.store_losses hwarn]
      simp only [hknown, true_and]
      split <;> rfl
  | globalStore ptr value =>
    simp only [ruling, Ruling.globalStore, Instr.loss]
    rw [Ruling.store_losses hwarn]
    split <;> rfl
  | atomic op dest value =>
    simp only [ruling, Ruling.atomic, Instr.loss] at herror ⊢
    split
    · next hwide => rw [if_pos hwide] at herror; cases herror
    · split
      · -- a value of the type of the pointer is not converted
        next heq => rw [if_neg (not_not.2 heq)]; rfl
      · exact Ruling.report_losses hwarn
  | binary op lhs rhs =>
    simp only [ruling, Ruling.binary]
    -- conversions of the operands of an operator are not reported
    repeat' split
    all_goals rfl
  | ternary op cond onTrue onFalse =>
    simp only [ruling, Ruling.ternary]
    repeat' split
    all_goals rfl
  | _ => exact (quiet_of_not_converts rfl).2

/-- A conversion has nothing to report. -/
theorem Instr.loss_of_isValueCast {τ : TypeMap} {i : Instr} (hi : i.isValueCast = true) :
    i.loss τ u = none := by
  obtain ⟨_, _, rfl⟩ := Instr.isValueCast_iff.1 hi
  rfl

namespace Program

/-! ### Why a conversion was inserted -/

/-- **Why the rule of `u` inserted `c`**, a conversion of `d` to `t`, on its way from `start` to
`q`. Only what is written to memory, and there is a loss to report then, and what an operator of
another class of types divides is ever converted to a type that does not hold it. -/
inductive Origin (config : Config) (u : StmtId) (start q : Program) (c : StmtId) (t : ElementType)
    (d : StmtId) : Prop
  /-- An operand or a branch was brought to the common type. -/
  | promoted : (q.instrAt u).value? = none → ElementType.narrows t (start.found q d) = false →
      Origin config u start q c t d
  /-- A value was brought to the type of its place. -/
  | written : (q.instrAt u).value? = some c →
      (ElementType.narrows t (start.found q d) = true → ∃ access,
        (start.instrAt u).loss start.typeAt u = some ⟨access, t, start.found q d⟩) →
      Origin config u start q c t d
  /-- An operand was brought to the class of types at which a division computes. -/
  | coerced : start.Coerces config u t d → Origin config u start q c t d

namespace Edit

variable (h : Edit config u start q r)
include h

/-- What was inserted since the start keeps its type. -/
theorem typeAt_eq (hc : start.size ≤ c) (hlt : c < q.size) : r.typeAt c = q.typeAt c := by
  cases h with
  | types htypes => exact htypes.type_eq c hc
  | lower => exact typeAt_rewrite
  | before | after => rw [typeAt_rewrite, typeAt_splice_of_lt hlt]

theorem found_eq (hd : d < q.size) : start.found r d = start.found q d := by
  unfold found
  split
  · rfl
  · next hge => rw [h.typeAt_eq (Nat.le_of_not_lt hge) hd]

/-- What `u` writes, it goes on writing, once it was converted. -/
theorem value?_eq (hc : start.size ≤ c) (hlt : c < q.size) :
    ((q.instrAt u).value? = none → (r.instrAt u).value? = none) ∧
      ((q.instrAt u).value? = some c → (r.instrAt u).value? = some c) := by
  cases h with
  | types htypes =>
    rw [htypes.instr_eq]
    exact ⟨id, id⟩
  | @lower op lhs rhs hi =>
    have hu : u < q.size := lt_size_of_instrAt_ne (by rw [hi]; simp)
    rw [instrAt_rewrite_self hu, hi]
    exact ⟨id, id⟩
  | @before d i t hd hswap hfirst =>
    rw [instrAt_insertion_self hswap]
    rcases hswap.value?_eq with ⟨hq, hi⟩ | ⟨hq, -⟩
    · exact ⟨fun _ => hi, fun h => absurd (hq.symm.trans h) (by simp)⟩
    · -- a value is converted first of all, and `c` is there already
      have hsize := hfirst (hq ▸ rfl)
      exact absurd hlt (Nat.not_lt.2 (hsize ▸ hc))
  | @after d i t hd hdstart hswap hnone =>
    rw [instrAt_insertion_self hswap]
    rcases hswap.value?_eq with ⟨hq, hi⟩ | ⟨hq, -⟩
    · exact ⟨fun _ => hi, fun h => absurd (hq.symm.trans h) (by simp)⟩
    · -- what a division coerces is an operand, and not a value that is written
      rw [hq] at hnone
      cases hnone

end Edit

/-- The reason why a conversion was inserted does not change. -/
theorem Origin.edit (h : Origin config u start q c t d) (hedit : Edit config u start q r)
    (hc : start.size ≤ c) (hlt : c < q.size) (hd : d < q.size) : Origin config u start r c t d := by
  obtain ⟨hnone, hsome⟩ := hedit.value?_eq hc hlt
  cases h with
  | promoted hvalue hholds => exact .promoted (hnone hvalue) (hedit.found_eq hd ▸ hholds)
  | written hvalue hloss => exact .written (hsome hvalue) (hedit.found_eq hd ▸ hloss)
  | coerced hcoerces => exact .coerced hcoerces

/-- **Every conversion has a reason**, and the element type it was made with. -/
theorem Edits.origin (h : Edits config u start start q) (hstart : start.Coherent) :
    ∀ c, start.size ≤ c → c < q.size → ∃ t d, q.instrAt c = .unary (.cast t true) d ∧
      d < q.size ∧ (q.typeAt c).elem = t ∧ Origin config u start q c t d := by
  induction h with
  | refl => exact fun c hc hlt => absurd hc (Nat.not_le.2 hlt)
  | @tail q r hedits hedit ih =>
    have hq := Edits.coherent hedits hstart
    have hext := hedit.extension hq
    have hle := (Edits.extension hedits hstart).size_le
    -- what was there before the last edit
    have hold : ∀ c, start.size ≤ c → c < q.size → ∃ t d, r.instrAt c = .unary (.cast t true) d ∧
        d < r.size ∧ (r.typeAt c).elem = t ∧ Origin config u start r c t d := by
      intro c hc hlt
      obtain ⟨t, d, hi, hd, htype, horigin⟩ := ih c hc hlt
      refine ⟨t, d, ?_, Nat.lt_of_lt_of_le hd hext.size_le, ?_, horigin.edit hedit hc hlt hd⟩
      · exact (hext.cast c (Instr.isValueCast_iff.2 ⟨t, d, hi⟩)).trans hi
      · rw [hedit.typeAt_eq hc hlt, htype]
    -- and the conversion that it inserts
    have hnew : ∀ {side anchor d t i}, d < q.size → Swaps d q.size (q.instrAt u) i →
        r = (q.splice side anchor d t).rewrite u i → Origin config u start r q.size t d →
        ∀ c, start.size ≤ c → c < r.size → ∃ t d, r.instrAt c = .unary (.cast t true) d ∧
          d < r.size ∧ (r.typeAt c).elem = t ∧ Origin config u start r c t d := by
      intro side anchor d t i hd hswap heq horigin c hc hlt
      rw [heq, size_insertion] at hlt
      rcases Nat.lt_succ_iff_lt_or_eq.1 hlt with hlt | rfl
      · exact hold c hc hlt
      · refine ⟨t, d, ?_, Nat.lt_of_lt_of_le hd hext.size_le, ?_, horigin⟩
        · rw [heq]
          exact instrAt_insertion_new (lt_size_of_swaps hswap)
        · rw [heq, typeAt_rewrite, typeAt_splice_size]
    have hedit' := hedit
    cases hedit with
    -- the other edits add no instruction
    | types htypes => exact fun c hc hlt => hold c hc (htypes.size_eq ▸ hlt)
    | lower => exact fun c hc hlt => hold c hc (size_rewrite (p := q) ▸ hlt)
    | @before d i t hd hswap hfirst hreports =>
      refine hnew hd hswap rfl ?_
      rcases hswap.value?_eq with ⟨hnone, hi⟩ | ⟨-, hi⟩
      · -- what is not written has nothing to report
        refine .promoted (by rw [instrAt_insertion_self hswap, hi]) ?_
        rw [hedit'.found_eq hd]
        by_contra hnarrows
        obtain ⟨-, -, hvalue⟩ := hreports (by simpa using hnarrows)
        rw [hnone] at hvalue
        cases hvalue
      · refine .written (by rw [instrAt_insertion_self hswap, hi]) ?_
        rw [hedit'.found_eq hd]
        intro hnarrows
        obtain ⟨access, hloss, -⟩ := hreports hnarrows
        exact ⟨access, hloss⟩
    | @after d i t hd hdstart hswap hvalue hcoerces => exact hnew hd hswap rfl (.coerced hcoerces)

end Program

namespace Checker

open Program (Origin Edits)

/-! ### What a visit reports and inserts -/

namespace Visit

/-- What a visit has to report, from the types that it found. -/
def loss (v : Visit) : Option (StmtId × PrecisionLoss) :=
  (v.instr.loss v.before.program.typeAt v.id).map fun loss => (v.id, loss)

/-- A visit inserted `c`, a conversion of `d` to `t`. -/
structure Inserts (config : Config) (v : Visit) (c : StmtId) (t : ElementType) (d : StmtId) :
    Prop where
  ge : v.before.program.size ≤ c
  lt : c < v.after.program.size
  instr : v.after.program.instrAt c = .unary (.cast t true) d
  origin : Origin config v.id v.before.program v.after.program c t d

end Visit

variable {log : List Visit} {v : Visit} {order : List StmtId}

namespace Visits

variable (hp : p.Coherent) (hclosed : p.Closed)
include hp hclosed

/-- **The warnings of a check** are what its visits had to report. -/
theorem warnings_eq (hwarn : ctx.config.narrowing = .warn)
    (h : Visits ctx { program := p } log left) :
    left.warnings.map Warning.subject = log.filterMap Visit.loss := by
  induction h with
  | nil => rfl
  | @snoc log mid left u hvisits hu hrun ih =>
    have hready := hvisits.ready hp hclosed hu
    have hobeys := (rule_obeys hready (.inl trivial)).of_runOn hrun
    have hlosses := losses_eq hwarn (Ruling.answer_eq_ok_iff.1 hobeys.verdict.symm)
    rw [hobeys.progress.warnings, ih, hlosses, List.filterMap_append, List.filterMap_cons]
    -- one visit more, with what it has to report
    congr 1
    unfold Visit.loss Visit.instr
    cases (mid.program.instrAt u).loss mid.program.typeAt u <;> rfl

/-- **Every conversion was inserted by a visit**, and was then left as it was. -/
theorem exists_inserts (h : Visits ctx { program := p } log left) :
    ∀ c, p.size ≤ c → c < left.program.size → ∃ v ∈ log, ∃ t d,
      v.Inserts ctx.config c t d ∧ left.program.instrAt c = .unary (.cast t true) d := by
  induction h with
  | nil => exact fun c hc hlt => absurd hc (Nat.not_le.2 hlt)
  | @snoc log mid left u hvisits hu hrun ih =>
    intro c hc hlt
    have hready := hvisits.ready hp hclosed hu
    have hobeys := (rule_obeys hready (.inl trivial)).of_runOn hrun
    have hrevises := (rule_revises hready (.inl trivial)).of_runOn hrun
    -- what was inserted before keeps its visit, and the rest is the work of this one
    rcases Nat.lt_or_ge c mid.program.size with hlt' | hge
    · obtain ⟨v, hv, t, d, hinserts, hi⟩ := ih c hc hlt'
      refine ⟨v, List.mem_append_left _ hv, t, d, hinserts, ?_⟩
      have hext := hobeys.progress.moves.extension hready.coherent
      exact (hext.cast c (Instr.isValueCast_iff.2 ⟨t, d, hi⟩)).trans hi
    · obtain ⟨t, d, hi, -, -, horigin⟩ := Edits.origin hrevises.edits hready.coherent c hge hlt
      exact ⟨⟨u, mid, left⟩, List.mem_append_right _ List.mem_cons_self, t, d,
        ⟨hge, hlt, hi, horigin⟩, hi⟩

end Visits

/-- Only original instructions have something to report. -/
theorem Trace.losses_sublist (h : Trace ctx p order log left) (hp : p.Coherent)
    (hclosed : p.Closed) : ((log.filterMap Visit.loss).map Prod.fst).Sublist order := by
  -- a conversion that is visited in its turn writes nothing
  have hcast : ∀ v ∈ log, p.size ≤ v.id → v.loss = none := by
    intro v hv hge
    obtain ⟨hext, hlt⟩ := h.visits.extends_before hp hclosed v hv
    rw [Visit.loss, Visit.instr, Instr.loss_of_isValueCast (hext.fresh v.id hge hlt)]
    rfl
  rw [← h.walked]
  clear h
  induction log with
  | nil => exact .slnil
  | cons v log ih =>
    have hrest := ih fun w hw => hcast w (List.mem_cons_of_mem _ hw)
    -- a visit takes its place in the order, whether it reports or not
    rw [List.filterMap_cons, List.map_cons]
    by_cases hlt : v.id < p.size
    · rw [List.filter_cons_of_pos (by simpa using hlt)]
      cases hloss : v.loss with
      | none => exact hrest.cons _
      | some loss =>
        obtain ⟨l, -, rfl⟩ := Option.map_eq_some_iff.1 hloss
        exact hrest.cons_cons _
    · rw [List.filter_cons_of_neg (by simpa using hlt),
        hcast v List.mem_cons_self (Nat.le_of_not_lt hlt)]
      exact hrest

end Checker

namespace Program

open Checker

/-- **No narrowing is silent.** A check of a tree that passes and warns of narrowings visits every
instruction that can be reached once, in program order. Its warnings are what those visits had to
report, from the types that they found: at most one of each instruction, in program order. And
every conversion that was inserted was inserted by one of the visits: to promote an operand or a
branch to a type that holds it, for the value of a store or an atomic operation, which has a loss to
report if the conversion is a narrowing, or for an operand of a division. -/
theorem typecheck_reports {o : Outcome} {report : Report} (hp : p.Coherent) (hclosed : p.Closed)
    (htree : p.Tree) (hwarn : ctx.config.narrowing = .warn) (ho : p.typecheck ctx = .ok o)
    (hok : o.result = .ok report) :
    ∃ order log left, p.reachable = .ok order ∧ order.Nodup ∧ Trace ctx p order log left ∧
      o.program = left.program ∧
      report.warnings.map Warning.subject = log.filterMap Visit.loss ∧
      (report.warnings.map Warning.stmt).Sublist order ∧
      ∀ c, p.size ≤ c → c < o.program.size → ∃ v ∈ log, ∃ t d,
        v.Inserts ctx.config c t d ∧ o.program.instrAt c = .unary (.cast t true) d := by
  obtain ⟨log, left, hlog, rfl⟩ := exists_trace hp hclosed htree ho hok
  cases hok
  have hfits := fits_of_acyclic hp hclosed (htree.acyclic hp)
  have hwarnings := hlog.visits.warnings_eq hp hclosed hwarn
  refine ⟨_, log, left, contents_eq hfits, htree.order_nodup hp .refl, hlog, rfl, hwarnings, ?_,
    hlog.visits.exists_inserts hp hclosed⟩
  -- a warning names the statement of the visit
  have hstmt :
      left.warnings.map Warning.stmt = (left.warnings.map Warning.subject).map Prod.fst := by
    rw [List.map_map]
    rfl
  show (left.warnings.map Warning.stmt).Sublist _
  rw [hstmt, hwarnings]
  exact hlog.losses_sublist hp hclosed

theorem typecheck_reports_store :
    storeProgram.Coherent ∧ storeProgram.Closed ∧ storeProgram.Tree ∧
      ∃ o report, storeProgram.typecheck ⟨{}, {}, .empty⟩ = .ok o ∧ o.result = .ok report ∧
        report.warnings.map Warning.subject = [(2, ⟨.localStore, .i32, .f64⟩)] ∧
        ∃ order log left, storeProgram.reachable = .ok order ∧ order.Nodup ∧
          Trace ⟨{}, {}, .empty⟩ storeProgram order log left ∧ o.program = left.program ∧
          report.warnings.map Warning.subject = log.filterMap Visit.loss ∧
          (report.warnings.map Warning.stmt).Sublist order ∧
          ∀ c, storeProgram.size ≤ c → c < o.program.size → ∃ v ∈ log, ∃ t d,
            v.Inserts {} c t d ∧ o.program.instrAt c = .unary (.cast t true) d := by
  have hbuild : build [.emit .alloca, .typed 0 (.scalar .i32), .emit (.const (.f64 0)),
      .emit (.localStore 0 1)] = .ok (storeProgram, [0, 0, 1, 2]) := by decide
  have hp : storeProgram.InRange .empty :=
    inRange_of_build hbuild Storage.linked_empty (by decide) (by decide)
  have htree : storeProgram.Tree := build_tree hbuild ⟨rfl, trivial, rfl, rfl, trivial⟩
  refine ⟨hp.coherent, hp.closed, htree, ?_⟩
  -- the run is evaluated for what it reports
  have hwarned : (storeProgram.typecheck ⟨{}, {}, .empty⟩).map
      (fun o => o.result.map fun report => report.warnings.map Warning.subject) =
        .ok (.ok [(2, ⟨.localStore, .i32, .f64⟩)]) := by decide +kernel
  obtain ⟨o, report, ho, hok, hreport⟩ := exists_report hwarned
  exact ⟨o, report, ho, hok, hreport,
    typecheck_reports hp.coherent hp.closed htree rfl ho hok⟩

/-- A store that was typed as a wider integer than its place, and is its own value. -/
def selfStoreProgram : Program where
  stmts := #[⟨0, .dummy, .scalar .i32, .const (.i32 1), root⟩,
    ⟨1, .dummy, .scalar .i64, .globalStore 0 1, root⟩]
  blocks := #[⟨[0, 1], none⟩]

/-- **A store that is its own value is not warned of.** Nothing has changed its type when it is
visited; but it takes over the type of its place before its value is looked at. -/
theorem exists_store_unreported :
    ∃ p o, build [.emit (.const (.i32 1)), .emit (.globalStore 0 1), .typed 1 (.scalar .i64)] =
        .ok (p, [0, 1, 1]) ∧
      p.Coherent ∧ p.Closed ∧ p.Tree ∧ p.reachable = .ok [0, 1] ∧
      runOn (rule ⟨{}, {}, .empty⟩ 0 (p.instrAt 0)) { program := p } =
        .ok (.ok (), { program := p }) ∧
      p.instrAt 1 = .globalStore 0 1 ∧
      ElementType.narrows (p.typeAt 0).elem (p.typeAt 1).elem = true ∧
      p.typecheck ⟨{}, {}, .empty⟩ = .ok o ∧ o.result = .ok ⟨[], 0⟩ := by
  have hbuild : build [.emit (.const (.i32 1)), .emit (.globalStore 0 1), .typed 1 (.scalar .i64)] =
      .ok (selfStoreProgram, [0, 1, 1]) := by decide
  have hp : selfStoreProgram.InRange .empty :=
    inRange_of_build hbuild Storage.linked_empty (by decide) (by decide)
  -- the store takes the type of its place first, and then reads it as that of its value
  exact ⟨_, ⟨selfStoreProgram.retype 1 (.scalar .i32), .ok ⟨[], 0⟩⟩, hbuild, hp.coherent, hp.closed,
    build_tree hbuild ⟨rfl, rfl, trivial, trivial⟩, by decide, rfl, rfl, by decide, rfl, rfl⟩

end Program

end TensorKernel
