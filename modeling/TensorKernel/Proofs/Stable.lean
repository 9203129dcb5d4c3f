import TensorKernel.Proofs.Report
import TensorKernel.Proofs.Rest
import TensorKernel.Proofs.Steady

/-!
# A check that passed passes again

In a steady program (`Program.Steady`) a check that passes leaves every instruction at rest
(`Program.AtRest`): its ruling finds nothing wrong and nothing left to do. Right after the rule of
an instruction that is so because of what the rule did (`idle_of_rule`), and it stays so, because
no type that the ruling reads changes afterwards (`Steady.not_late`). `Rests` is the invariant.

A check of a program at rest applies rules that leave everything as it is, so it passes without a
conversion or a warning and returns the same program (`typecheck_of_atRest`).

That a slot that is loaded is one lane wide has to be asked for: the first load only checks its own
width, and takes over that of the slot, which the next check refuses (`exists_load_refused`).
-/

namespace TensorKernel

variable {ctx : CheckContext} {p q : Program} {done order front back : List StmtId}
  {s left : CheckState} {u x : StmtId}

/-- **Nothing is left to do** for the rule of `u`. -/
structure Program.AtRest (ctx : CheckContext) (q : Program) (u : StmtId) : Prop where
  idle : (q.rulings ctx q.typeAt u).Idle q.typeAt
  plain : ∀ op lhs rhs, q.instrAt u = .binary op lhs rhs → op.lowering? ctx.config = none

/-! ### A check of a program at rest -/

namespace Checker

/-- **A check of a program at rest** ends in the state in which it started. -/
theorem pass_of_atRest (hq : q.InRange ctx.storage) (hfits : q.Fits q.nestingBound Program.root)
    (hrest : ∀ u ∈ q.order q.nestingBound Program.root, q.AtRest ctx u)
    (htotal : ctx.config.verifyTotality = true → q.Total) :
    runOn (pass ctx) { program := q } = .ok (.ok (), { program := q }) := by
  -- every rule that is applied leaves the state as it is
  have hwalks : Walks False ctx q (q.order q.nestingBound Program.root)
      (fun _ s => s = { program := q }) (fun _ => False) (fun _ _ => False) :=
    { coherent := by
        rintro _ _ rfl
        exact hq.coherent
      extends' := by
        rintro _ _ rfl
        exact .refl hq.coherent
      enter := by
        rintro _ _ _ _ rfl - - c hc hge
        exact absurd (hq.coherent.owned _ c hc).1 (Nat.not_lt.2 hge)
      step := by
        rintro done _ u rfl hall hu
        have hmem : u ∈ q.order q.nestingBound Program.root := hall.subset (by simp)
        have hready : Ready q.size u q := ⟨hq.coherent, hq.closed.grounded, Nat.le_refl _, hu⟩
        refine (rule_of_idle (s := { program := q }) hready (.inr (hq.answers hu)) rfl
          (hrest u hmem).plain (hrest u hmem).idle).mono ?_
        rintro r _ ⟨rfl, rfl⟩
        exact ⟨Nat.le_refl _, rfl⟩
      cast := fun _ hmet => hmet.elim }
  have hends := hwalks.pass_ends (fun h => h ▸ hq.closed.grounded) hfits rfl rfl
  obtain ⟨answer, left, hrun, hpost⟩ := hends.exists_runOn
  cases answer with
  | ok =>
    obtain ⟨rfl, -⟩ := hpost
    exact hrun
  | error fatal =>
    -- neither does a rule stop, nor is a value without a type
    rcases hpost with hstop | ⟨hverify, ⟨rfl, hpartial⟩, -⟩
    · exact hstop.elim
    · exact absurd (htotal hverify) hpartial

end Checker

theorem Program.typecheck_of_atRest (hq : q.InRange ctx.storage)
    (hfits : q.Fits q.nestingBound root) (hrest : ∀ u ∈ q.order q.nestingBound root, q.AtRest ctx u)
    (htotal : ctx.config.verifyTotality = true → q.Total) :
    q.typecheck ctx = .ok ⟨q, .ok ⟨[], 0⟩⟩ := by
  rw [typecheck, Fault.bind_eq_ok_iff]
  exact ⟨_, Checker.pass_of_atRest hq hfits hrest htotal, rfl⟩

/-! ### What a check leaves at rest -/

namespace Settles

open Checker

/-- No instruction becomes a constant. -/
theorem isConst_kept (hs : Settles ctx p done s) (hleft : Settles ctx p (done ++ [u]) left)
    (hmoves : Program.Moves p.size u s.program left.program) (hx : x < s.program.size) :
    (s.program.instrAt x).isConst = (left.program.instrAt x).isConst := by
  by_cases hxu : x = u
  · have hu : u < p.size := hleft.old u (by simp)
    rw [hxu, hs.isConst_eq hu, hleft.isConst_eq hu]
  · rw [hmoves.instrAt_eq hs.coherent hx hxu]

/-- **An instruction whose rule has just passed** is at rest. -/
theorem idle_of_passed (hs : Settles ctx p done s) (hleft : Settles ctx p (done ++ [u]) left)
    (hp : p.Closed) (hsteady : p.Steady ctx order) (heq : order = done ++ u :: back)
    (hdone : u ∉ done) (hself : u ∉ (s.program.instrAt u).operands)
    (hloads : ∀ slot, p.instrAt u = .localLoad slot → (p.typeAt slot).isUnknown = false →
      (p.typeAt slot).width = 1)
    (hobeys : Obeys ctx.signature p.size u s (s.program.rulings ctx s.program.typeAt u) (.ok ())
      left)
    (hrevises : Revises ctx.config u s (.ok ()) left) :
    (left.program.rulings ctx left.program.typeAt u).Idle left.program.typeAt := by
  have hu : u < p.size := hleft.old u (by simp)
  have hlt := hs.lt_size hu
  have hinstr := hs.untouched u hu hdone
  have hclosed := hs.closed.operands u hlt
  -- a slot has a type by now, and one lane if it is loaded
  have hslot : ∀ {slot}, (p.instrAt u).slot? = some slot → slot < p.size ∧
      (p.typesAfter ctx done u slot).isUnknown = false ∧
        (p.instrAt u = .localLoad slot →
          ((p.typeAt slot).isUnknown = false → (p.typeAt slot).width = 1) →
            ((p.infer ctx done).2.types slot).width = 1) := by
    intro slot hslot
    have hmem := Instr.slot_mem_operands hslot
    exact ⟨hp.operands u hu slot hmem,
      hsteady.slot_type ⟨u, by simp [heq], hslot⟩ heq hleft.passed hmem⟩
  refine idle_of_rule (Ruling.answer_eq_ok_iff.1 hobeys.verdict.symm) ?_ hself
    (fun o ho => hs.isConst_kept hleft hobeys.progress.moves (hclosed o ho))
    (hinstr ▸ hleft.erases.redirected u hu) (hobeys.agreed rfl hself)
    (hrevises.matched rfl hself) (hrevises.plain rfl) ?_ ?_
  · rintro x (rfl | hx)
    · exact hobeys.progress.types x hlt
    · exact hobeys.progress.types x (hclosed x hx)
  · -- what is loaded is one lane wide
    intro slot hload
    rw [hinstr] at hload
    obtain ⟨hold, -, hwidth⟩ := hslot (by rw [hload]; rfl)
    rw [hs.known.types slot hold]
    exact hwidth hload (hloads slot hload)
  · -- what was stored to has a type
    intro slot value hstore
    rw [hinstr] at hstore
    obtain ⟨hold, hknown, -⟩ := hslot (by rw [hstore]; rfl)
    rw [hleft.known.types slot hold]
    exact hknown

end Settles

/-- **The instructions that were walked are at rest**, as far as the types go that were known when
their rules were applied, and conversions have the element types they were made with. -/
structure Rests (ctx : CheckContext) (p : Program) (done : List StmtId) (s : CheckState) :
    Prop where
  elems : ∀ c, p.size ≤ c → c < s.program.size → ∀ t d,
    s.program.instrAt c = .unary (.cast t true) d → (s.program.typeAt c).elem = t
  plain : ∀ u ∈ done, ∀ op lhs rhs, s.program.instrAt u = .binary op lhs rhs →
    op.lowering? ctx.config = none
  idle : ∀ front u back, done = front ++ u :: back →
    (s.program.rulings ctx (asOf ctx p front u s.program) u).Idle (asOf ctx p front u s.program)

namespace Rests

open Checker

/-- **The rule of the next instruction** leaves it at rest, and the others as they are. -/
theorem step (hrest : Rests ctx p done s) (hs : Settles ctx p done s)
    (hleft : Settles ctx p (done ++ [u]) left) (hp : p.Closed) (hsteady : p.Steady ctx order)
    (hnodup : order.Nodup) (heq : order = done ++ u :: back)
    (hloads : ∀ slot, p.instrAt u = .localLoad slot → (p.typeAt slot).isUnknown = false →
      (p.typeAt slot).width = 1)
    (hobeys : Obeys ctx.signature p.size u s (s.program.rulings ctx s.program.typeAt u) (.ok ())
      left)
    (hrevises : Revises ctx.config u s (.ok ()) left) : Rests ctx p (done ++ [u]) left := by
  have hu : u < p.size := hleft.old u (by simp)
  have hdone : u ∉ done := by
    rw [heq] at hnodup
    exact fun hmem => List.disjoint_of_nodup_append hnodup hmem List.mem_cons_self
  have hself : u ∉ (s.program.instrAt u).operands := by
    rw [hs.untouched u hu hdone]
    exact fun hmem => hdone (hsteady.mem_front hnodup heq u hmem)
  have hmoves := hobeys.progress.moves
  have hext := hmoves.extension hs.coherent
  refine ⟨?_, ?_, ?_⟩
  · intro c hc hlt t d hi
    rcases Nat.lt_or_ge c s.program.size with hlt' | hge
    · -- a conversion that was there
      have hcast := hs.erases.extends'.fresh c hc hlt'
      rw [hext.cast c hcast] at hi
      rw [hs.typeAt_cast hp hu hdone hobeys hc hlt']
      exact hrest.elems c hc hlt' t d hi
    · -- a conversion that this rule made has the element type that it was made for
      obtain ⟨t', d', hi', -, htype, -⟩ :=
        Program.Edits.origin hrevises.edits hs.coherent c hge hlt
      cases hi.symm.trans hi'
      exact htype
  · intro v hv op lhs rhs hi
    rcases List.mem_append.1 hv with hv | hv
    · have hvu : v ≠ u := fun h => hdone (h ▸ hv)
      rw [hmoves.instrAt_eq hs.coherent (hs.lt_size (hs.old v hv)) hvu] at hi
      exact hrest.plain v hv op lhs rhs hi
    · obtain rfl := List.mem_singleton.1 hv
      exact hrevises.plain rfl op lhs rhs hi
  · intro front v back' hsplit
    rcases split_of_concat hsplit with ⟨back', rfl⟩ | ⟨rfl, rfl⟩
    · -- an earlier instruction, which finds the types it found
      have hvu : v ≠ u := fun hvu => hdone (by simp [hvu])
      have hv := hs.lt_size (hs.old v (by simp))
      rw [Program.rulings, hmoves.instrAt_eq hs.coherent hv hvu]
      have hclosed := hs.closed.operands v hv
      exact (hrest.idle front v back' rfl).congr (hs.asOf_eq hp hu hdone hobeys hv)
        (fun o ho => hs.asOf_eq hp hu hdone hobeys (hclosed o ho))
        fun o ho => hs.isConst_kept hleft hmoves (hclosed o ho)
    · -- `u` itself, right after its rule
      rw [hs.asOf_eq_typeAt hp hu hdone hobeys]
      exact hs.idle_of_passed hleft hp hsteady heq hdone hself hloads hobeys hrevises

/-- **An instruction that was walked is at rest in the end**: what it reads did not change late. -/
theorem atRest_of_lt (hrest : Rests ctx p order s) (hs : Settles ctx p order s)
    (hsteady : p.Steady ctx order) (hnodup : order.Nodup) (hu : u ∈ order) :
    s.program.AtRest ctx u := by
  refine ⟨?_, hrest.plain u hu⟩
  have hlt := hs.old u hu
  obtain ⟨front, back, heq⟩ := List.append_of_mem hu
  by_cases hsource : (p.instrAt u).isConst = true ∨ p.instrAt u = .alloca
  · -- constants and slots have no rule
    obtain ⟨value, hi⟩ | hi := hsource.imp_left Instr.exists_of_isConst
    all_goals
      have hsame := (hs.erases.redirected u hlt).eq_of_converts (by rw [hi]; rfl)
      rw [Program.rulings, hsame, hi]
      exact Ruling.none_idle
  · have hops := hsteady.mem_front hnodup heq
    -- neither `u` nor what comes before it is visited again
    have hback : ∀ {x}, x ∈ front ∨ x = u → x ∉ back := by
      rw [heq] at hnodup
      rintro x (hx | rfl)
      · exact fun hmem => List.disjoint_of_nodup_append hnodup hx (List.mem_cons_of_mem _ hmem)
      · exact (List.nodup_cons.1 (List.nodup_append.1 hnodup).2.1).1
    have hs' : Settles ctx p (front ++ u :: back) s := heq ▸ hs
    refine (hrest.idle front u back heq).congr ?_ (fun o ho => ?_) fun _ _ => rfl
    · exact ((hs'.drifts (hback (.inr rfl))).eq fun hlate =>
        hsource (hsteady.source_of_late heq hlate)).symm
    · -- an original operand is typed no more, and a conversion is never typed again
      rcases Nat.lt_or_ge o p.size with holt | hge
      · have ho' := hs.erases.operand_of_lt hlt ho holt
        exact ((hs'.drifts (hback (.inl (hops o ho')))).eq
          (hsteady.not_late heq hs.passed ho')).symm
      · exact if_neg (Nat.not_lt.2 hge)

/-- **A conversion is at rest in the end**: it has the type that its rule would give it. -/
theorem atRest_of_ge (hrest : Rests ctx p order s) (hs : Settles ctx p order s)
    (hsteady : p.Steady ctx order) (hnodup : order.Nodup) (hu : p.size ≤ u)
    (hlt : u < s.program.size) : s.program.AtRest ctx u := by
  obtain ⟨t, d, hi, hwidth⟩ := hs.width_cast_of_before hnodup
    (fun front v back heq => hsteady.mem_front hnodup heq) hu hlt
  have helem := hrest.elems u hu hlt t d hi
  -- what it converts is typed no more, and so has the width that it had
  have hsame : (s.program.typeAt u).width = (s.program.typeAt d).width := by
    refine hwidth.resolve_right ?_
    rintro ⟨front, v, back, heq, hd, hlate⟩
    exact hsteady.not_late heq hs.passed hd hlate
  have htype : s.program.typeAt u = ⟨(s.program.typeAt d).width, t⟩ :=
    congrArg₂ VectorType.mk hsame helem
  constructor
  · rw [Program.rulings, hi]
    exact Ruling.set_idle htype
  · intro op lhs rhs hbinary
    rw [hi] at hbinary
    cases hbinary

end Rests

namespace Program

/-- **A check that passed is a fixed point.** If a check of a steady tree passes, in which a slot
that is loaded and has a type from the start is one lane wide, the same check of the program that it
returns passes with no warning and no conversion, and returns that program. -/
theorem typecheck_stable {o : Outcome} {report : Report} (hp : p.InRange ctx.storage)
    (htree : p.Tree) (horder : p.reachable = .ok order) (hsteady : p.Steady ctx order)
    (hloads : ∀ u ∈ order, ∀ slot, p.instrAt u = .localLoad slot →
      (p.typeAt slot).isUnknown = false → (p.typeAt slot).width = 1)
    (ho : p.typecheck ctx = .ok o) (hok : o.result = .ok report) :
    o.program.typecheck ctx = .ok ⟨o.program, .ok ⟨[], 0⟩⟩ := by
  obtain ⟨hfits, rfl⟩ := contents_eq_ok_iff.1 horder
  have hnodup : (p.order p.nestingBound root).Nodup := htree.order_nodup hp.coherent .refl
  have hstart : Rests ctx p [] { program := p } :=
    { elems := fun c hc hlt => absurd hlt (Nat.not_lt.2 hc)
      plain := fun _ hu => nomatch hu
      idle := fun front u back h => by cases front <;> cases h }
  obtain ⟨left, hleft, hrest, htotal, hprogram⟩ := exists_settled hp.coherent hp.closed hfits hnodup
    (fun front u back heq => hsteady.mem_front hnodup heq) hstart
    (fun heq hs hrest hleft hobeys hrevises => hrest.step hs hleft hp.closed hsteady hnodup heq
      (hloads _ (by simp [heq])) hobeys hrevises) ho hok
  rw [hprogram]
  have hext := hleft.erases.extends'
  -- conversions nest nothing, so the final program can be walked within the same bound
  have hbound : left.program.nestingBound = p.nestingBound := hext.blocks_size
  have hfits' : left.program.Fits left.program.nestingBound root := by
    rw [hbound]
    exact hext.fits hleft.coherent hfits
  have hq : left.program.InRange ctx.storage :=
    { coherent := hleft.coherent
      closed := hleft.closed
      linked := hp.linked
      nodes := fun _ hx => hleft.erases.nodes hp.nodes hx }
  refine typecheck_of_atRest hq hfits' (fun u hu => ?_) htotal
  rcases Nat.lt_or_ge u p.size with hlt | hge
  · -- without the conversions, the order is the one that was walked
    refine hrest.atRest_of_lt hleft hsteady hnodup ?_
    rw [← hext.order_filter hleft.coherent hfits, ← hbound]
    exact List.mem_filter.2 ⟨hu, decide_eq_true hlt⟩
  · exact hrest.atRest_of_ge hleft hsteady hnodup hge (lt_size_of_mem_order hfits' hu)

/-- A slot that takes over the type of a float, which is loaded and divided as an integer. -/
def slotProgram : Program where
  stmts := #[⟨0, .dummy, .scalar .unknown, .alloca, root⟩,
    ⟨1, .dummy, .scalar .f32, .const (.f32 0), root⟩,
    ⟨2, .dummy, .scalar .i32, .const (.i32 2), root⟩,
    ⟨3, .dummy, .scalar .unknown, .localStore 0 1, root⟩,
    ⟨4, .dummy, .scalar .unknown, .localLoad 0, root⟩,
    ⟨5, .dummy, .scalar .unknown, .binary .floorDiv 4 2, root⟩]
  blocks := #[⟨[0, 1, 2, 3, 4, 5], none⟩]

theorem typecheck_stable_slot :
    slotProgram.InRange .empty ∧ slotProgram.Tree ∧
      slotProgram.reachable = .ok [0, 1, 2, 3, 4, 5] ∧
      slotProgram.Steady ⟨{}, {}, .empty⟩ [0, 1, 2, 3, 4, 5] ∧
      (∀ u ∈ [0, 1, 2, 3, 4, 5], ∀ slot, slotProgram.instrAt u = .localLoad slot →
        (slotProgram.typeAt slot).isUnknown = false → (slotProgram.typeAt slot).width = 1) ∧
      ∃ o report, slotProgram.typecheck ⟨{}, {}, .empty⟩ = .ok o ∧ o.result = .ok report ∧
        report.casts = 1 ∧
        o.program.typecheck ⟨{}, {}, .empty⟩ = .ok ⟨o.program, .ok ⟨[], 0⟩⟩ := by
  have hbuild : build [.emit .alloca, .emit (.const (.f32 0)), .emit (.const (.i32 2)),
      .emit (.localStore 0 1), .emit (.localLoad 0), .emit (.binary .floorDiv 4 2)] =
      .ok (slotProgram, [0, 1, 2, 3, 4, 5]) := by decide +kernel
  have hp : slotProgram.InRange .empty :=
    inRange_of_build hbuild Storage.linked_empty (by decide) (by decide)
  have htree : slotProgram.Tree := build_tree hbuild ⟨rfl, rfl, rfl, rfl, rfl, rfl, trivial⟩
  have horder : slotProgram.reachable = .ok [0, 1, 2, 3, 4, 5] := by decide
  -- there is one slot, and the float is stored to it first of all
  have hslot : ∀ u ∈ [0, 1, 2, 3, 4, 5], (slotProgram.instrAt u).slot? = none ∨
      (slotProgram.instrAt u).slot? = some 0 := by decide
  have hslot : ∀ u ∈ [0, 1, 2, 3, 4, 5], ∀ slot, (slotProgram.instrAt u).slot? = some slot →
      slot = 0 := by
    intro u hu slot h
    rcases hslot u hu with hnone | hzero
    · rw [hnone] at h
      cases h
    · exact Option.some.inj (h.symm.trans hzero)
  have hfirst : slotProgram.StoredFirst ⟨{}, {}, .empty⟩ [0, 1, 2, 3, 4, 5] 0 :=
    ⟨[0, 1, 2], 3, [4, 5], 1, rfl, rfl, by decide, by decide, by decide⟩
  -- the operands stand in front, and nothing bounds a loop
  have hsteady : slotProgram.Steady ⟨{}, {}, .empty⟩ [0, 1, 2, 3, 4, 5] :=
    { before := by decide
      bounds := by decide
      slots := by
        intro u hu slot h
        obtain rfl := hslot u hu slot h
        exact ⟨rfl, .inr hfirst⟩ }
  have hloads : ∀ u ∈ [0, 1, 2, 3, 4, 5], ∀ slot, slotProgram.instrAt u = .localLoad slot →
      (slotProgram.typeAt slot).isUnknown = false → (slotProgram.typeAt slot).width = 1 := by
    intro u hu slot hload _
    rw [hslot u hu slot (by rw [hload]; rfl)]
    rfl
  refine ⟨hp, htree, horder, hsteady, hloads, ?_⟩
  have hcasts : (slotProgram.typecheck ⟨{}, {}, .empty⟩).map
      (fun o => o.result.map Report.casts) = .ok (.ok 1) := by decide +kernel
  obtain ⟨o, report, ho, hok, hreport⟩ := Checker.exists_report hcasts
  exact ⟨o, report, ho, hok, hreport, typecheck_stable hp htree horder hsteady hloads ho hok⟩

/-- A slot that is four lanes wide from the start, to which a float is stored, and which is loaded.
The store and the load have type `t`. -/
def wideSlotProgram (t : VectorType) : Program where
  stmts := #[⟨0, .dummy, ⟨4, .f32⟩, .alloca, root⟩,
    ⟨1, .dummy, .scalar .f32, .const (.f32 0), root⟩, ⟨2, .dummy, t, .localStore 0 1, root⟩,
    ⟨3, .dummy, t, .localLoad 0, root⟩]
  blocks := #[⟨[0, 1, 2, 3], none⟩]

/-- **A load of a wide slot is refused the second time**: it is one lane wide when it is checked
first, and takes over the type of the slot. -/
theorem exists_load_refused :
    ∃ p o, build [.emit .alloca, .typed 0 ⟨4, .f32⟩, .emit (.const (.f32 0)),
        .emit (.localStore 0 1), .emit (.localLoad 0)] = .ok (p, [0, 0, 1, 2, 3]) ∧
      p.InRange .empty ∧ p.Tree ∧ p.reachable = .ok [0, 1, 2, 3] ∧
      (∀ x < p.size, x ∈ [0, 1, 2, 3]) ∧ p.Steady ⟨{}, {}, .empty⟩ [0, 1, 2, 3] ∧
      p.typecheck ⟨{}, {}, .empty⟩ = .ok o ∧ o.result = .ok ⟨[], 0⟩ ∧
      (o.program.typecheck ⟨{}, {}, .empty⟩).map
        (fun o => o.result.mapError fun failure => (failure.stmt, failure.error)) =
          .ok (.error (3, .nonScalar .localLoad 4)) := by
  have hbuild : build [.emit .alloca, .typed 0 ⟨4, .f32⟩, .emit (.const (.f32 0)),
      .emit (.localStore 0 1), .emit (.localLoad 0)] =
      .ok (wideSlotProgram (.scalar .unknown), [0, 0, 1, 2, 3]) := by decide
  have hp : (wideSlotProgram (.scalar .unknown)).InRange .empty :=
    inRange_of_build hbuild Storage.linked_empty (by decide) (by decide)
  have htree : (wideSlotProgram (.scalar .unknown)).Tree :=
    build_tree hbuild ⟨rfl, trivial, rfl, rfl, rfl, trivial⟩
  -- the slot is stored to before it is loaded
  have hfirst : (wideSlotProgram (.scalar .unknown)).StoredFirst ⟨{}, {}, .empty⟩ [0, 1, 2, 3] 0 :=
    ⟨[0, 1], 2, [3], 1, rfl, rfl, by decide, by decide, by decide⟩
  have hslot : ∀ u ∈ [0, 1, 2, 3],
      ((wideSlotProgram (.scalar .unknown)).instrAt u).slot? = none ∨
        ((wideSlotProgram (.scalar .unknown)).instrAt u).slot? = some 0 := by decide
  have hsteady : (wideSlotProgram (.scalar .unknown)).Steady ⟨{}, {}, .empty⟩ [0, 1, 2, 3] :=
    { before := by decide
      bounds := by decide
      slots := by
        intro u hu slot h
        rcases hslot u hu with hnone | hzero
        · rw [hnone] at h
          cases h
        · cases h.symm.trans hzero
          exact ⟨rfl, .inr hfirst⟩ }
  -- the load takes the four lanes of the slot, which a second check refuses
  exact ⟨_, ⟨wideSlotProgram ⟨4, .f32⟩, .ok ⟨[], 0⟩⟩, hbuild, hp, htree, by decide, by decide,
    hsteady, rfl, rfl, by decide +kernel⟩

end Program

end TensorKernel
