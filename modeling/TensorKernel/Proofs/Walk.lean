import TensorKernel.Check.Outcome
import TensorKernel.Proofs.MemoryRules
import TensorKernel.Proofs.Order

/-!
# The walk of a check

A check walks through a program that changes under it. What it meets is nevertheless the program
order of the program that was given: a block is walked as it was when the walk came to it, and
what is inserted into later blocks are conversions, which nest nothing. `Walks` collects what has
to be shown of the single steps so that an invariant holds all along, and `visitBlock_goes` is the
induction over the walk.

The invariant is told what has been walked so far, as a list of the original instructions. Where
conversions can be met that an earlier rule put into a block, they are accounted for by `met`; an
invariant that excludes them takes `False` there.

* `verifyTotality_ends` — the look at the finished program changes nothing, and finds the first
  value without a type (`unresolved?`);
* `pass_ends`, `pass_goes` — the whole check, with and without what that look found;
* `exists_typecheck`, `exists_run_of_typecheck` — the outcome of a check is how its run ends.
-/

namespace TensorKernel.Checker

variable {excuse : Prop} {ctx : CheckContext} {p : Program} {all done : List StmtId}
  {Inv : List StmtId → CheckState → Prop} {Met : StmtId → Prop} {Stop : Fatal → CheckState → Prop}
  {s : CheckState} {b : BlockId} {depth : Nat}

/-- What is met in a walk with `a` as the last was met before, or is `a`. -/
theorem split_of_concat {α : Type} {l front back : List α} {a b : α}
    (h : l ++ [a] = front ++ b :: back) :
    (∃ back', l = front ++ b :: back') ∨ front = l ∧ b = a := by
  rcases List.eq_nil_or_concat back with rfl | ⟨back', c, rfl⟩
  · obtain ⟨rfl, hb⟩ := List.append_inj' h rfl
    cases hb
    exact .inr ⟨rfl, rfl⟩
  · rw [List.concat_eq_append, ← List.cons_append, ← List.append_assoc] at h
    exact .inl ⟨back', (List.append_inj' h rfl).1⟩

/-- From `s` the program has only grown; after an answer `after` holds, after an error `Stop`. -/
def Goes (s : CheckState) (after : CheckState → Prop) (Stop : Fatal → CheckState → Prop)
    (answer : Except Fatal Unit) (left : CheckState) : Prop :=
  s.program.size ≤ left.program.size ∧
    match answer with
    | .ok () => after left
    | .error fatal => Stop fatal left

/-- What has to be shown of single steps, on the walk through `p` in the order `all`. -/
structure Walks (excuse : Prop) (ctx : CheckContext) (p : Program) (all : List StmtId)
    (Inv : List StmtId → CheckState → Prop) (Met : StmtId → Prop)
    (Stop : Fatal → CheckState → Prop) : Prop where
  coherent : ∀ {done s}, Inv done s → s.program.Coherent
  extends' : ∀ {done s}, Inv done s → p.Extends s.program
  /-- The conversions that are met in a block when the walk comes to it. -/
  enter : ∀ {done s depth b}, Inv done s → done ++ p.order depth b <+: all → p.Fits depth b →
    ∀ c ∈ s.program.listAt b, p.size ≤ c → Met c
  /-- The rule of an original instruction. -/
  step : ∀ {done s u}, Inv done s → done ++ [u] <+: all → u < p.size →
    Ends excuse s (rule ctx u (s.program.instrAt u)) (Goes s (Inv (done ++ [u])) Stop)
  /-- The rule of an inserted conversion. -/
  cast : ∀ {done s c}, Inv done s → Met c → p.size ≤ c → c < s.program.size →
    Ends excuse s (rule ctx c (s.program.instrAt c)) (Goes s (Inv done) Stop)

/-- One thing after the other, each of which walks its part of the order. -/
theorem forM_goes {α : Type} {f : α → Checker Unit} (part : α → List StmtId) {l : List α}
    (least : Nat) (h : ∀ x ∈ l, ∀ {done s}, Inv done s → least ≤ s.program.size →
      done ++ part x <+: all → Ends excuse s (f x) (Goes s (Inv (done ++ part x)) Stop))
    (hinv : Inv done s) (hleast : least ≤ s.program.size)
    (hall : done ++ l.flatMap part <+: all) :
    Ends excuse s (l.forM f) (Goes s (Inv (done ++ l.flatMap part)) Stop) := by
  induction l generalizing done s with
  | nil =>
    rw [List.flatMap_nil, List.append_nil]
    exact ⟨Nat.le_refl _, hinv⟩
  | cons x l ih =>
    rw [List.flatMap_cons, ← List.append_assoc] at hall ⊢
    -- `x` first, which walks its own part of the order
    have hx := h x List.mem_cons_self hinv hleast ((List.prefix_append _ _).trans hall)
    refine Ends.bind hx ?_ ?_
    · rintro ⟨⟩ s₁ ⟨hle, hinv₁⟩
      have hrest := ih (fun y hy => h y (List.mem_cons_of_mem _ hy)) hinv₁ (hleast.trans hle) hall
      refine hrest.mono ?_
      rintro r s₂ ⟨hle₂, hr⟩
      exact ⟨hle.trans hle₂, hr⟩
    · rintro fatal s₁ hgoes
      exact hgoes

namespace Walks

/-- The visit of an original instruction walks it and then what it nests. -/
private theorem visit_goes (hw : Walks excuse ctx p all Inv Met Stop) {u : StmtId}
    {enter : BlockId → Checker Unit}
    (henter : ∀ b ∈ (p.instrAt u).blocks, ∀ {done s}, Inv done s → done ++ p.order depth b <+: all →
      Ends excuse s (enter b) (Goes s (Inv (done ++ p.order depth b)) Stop))
    (hinv : Inv done s) (hu : u < p.size)
    (hall : done ++ u :: (p.instrAt u).blocks.flatMap (p.order depth) <+: all) :
    Ends excuse s (visit ctx enter u)
      (Goes s (Inv (done ++ u :: (p.instrAt u).blocks.flatMap (p.order depth))) Stop) := by
  -- the instruction that is looked up is nested where it was, and nests what it nested
  have hlt := Nat.lt_of_lt_of_le hu (hw.extends' hinv).size_le
  have hblocks : (s.program.instrAt u).blocks = (p.instrAt u).blocks :=
    (hw.extends' hinv).nested u hu
  rw [List.append_cons] at hall ⊢
  unfold visit
  rw [ends_bind (runOn_stmt_eq hlt)]
  refine (hw.step hinv ((List.prefix_append _ _).trans hall) hu).bind ?_ ?_
  · rintro ⟨⟩ s₁ ⟨hle, hinv₁⟩
    change Ends excuse s₁ ((s.program.instrAt u).blocks.forM enter) _
    rw [hblocks]
    -- the rule has changed the program, but not what `u` nests
    refine (forM_goes (p.order depth) 0
      (fun b hb _ _ hinv _ hall => henter b hb hinv hall) hinv₁ (Nat.zero_le _) hall).mono ?_
    rintro r s₂ ⟨hle₂, hr⟩
    exact ⟨hle.trans hle₂, hr⟩
  · rintro fatal s₁ hgoes
    exact hgoes

/-- The visit of a conversion walks nothing. -/
private theorem visit_cast_goes (hw : Walks excuse ctx p all Inv Met Stop) {c : StmtId}
    {enter : BlockId → Checker Unit} (hinv : Inv done s) (hmet : Met c) (hc : p.size ≤ c)
    (hlt : c < s.program.size) :
    Ends excuse s (visit ctx enter c) (Goes s (Inv done) Stop) := by
  -- a conversion nests nothing, so that its visit ends with its rule
  have hblocks : (s.program.instrAt c).blocks = [] := by
    obtain ⟨_, _, hi⟩ := Instr.isValueCast_iff.1 ((hw.extends' hinv).fresh c hc hlt)
    rw [hi]
    rfl
  unfold visit
  rw [ends_bind (runOn_stmt_eq hlt)]
  refine (hw.cast hinv hmet hc hlt).bind ?_ ?_
  · rintro ⟨⟩ s₁ hgoes
    change Ends excuse s₁ ((s.program.instrAt c).blocks.forM enter) _
    rw [hblocks]
    exact hgoes
  · rintro fatal s₁ hgoes
    exact hgoes

/-- **The walk through a block** walks its part of the program order. -/
theorem visitBlock_goes (hw : Walks excuse ctx p all Inv Met Stop) (hfits : p.Fits depth b)
    (hinv : Inv done s) (hall : done ++ p.order depth b <+: all) :
    Ends excuse s (visitBlock ctx depth b) (Goes s (Inv (done ++ p.order depth b)) Stop) := by
  induction depth generalizing b done s with
  | zero => exact hfits.elim
  | succ depth ih =>
    have hext := hw.extends' hinv
    have hmet := hw.enter hinv hall hfits
    -- the block as it is now, in which only original instructions count for the order
    have hlist : p.order (depth + 1) b = (s.program.listAt b).flatMap fun x =>
        if decide (x < p.size) then x :: (p.instrAt x).blocks.flatMap (p.order depth) else [] := by
      rw [Program.flatMap_ite_nil, hext.list]
      rfl
    have hb : b < s.program.blocks.size := hext.blocks_size ▸ hfits.1
    unfold visitBlock
    rw [ends_bind (runOn_block_eq hb)]
    rw [hlist] at hall ⊢
    refine forM_goes (f := visit ctx (visitBlock ctx depth)) _ s.program.size ?_ hinv
      (Nat.le_refl _) hall
    intro x hx done' s' hinv' hle hall'
    by_cases hlt : x < p.size
    · -- an instruction of the program that was given
      rw [if_pos (decide_eq_true hlt)] at hall' ⊢
      have hmem : x ∈ p.listAt b := by
        rw [← hext.list b]
        exact List.mem_filter.2 ⟨hx, decide_eq_true hlt⟩
      exact hw.visit_goes (fun b' hb' _ _ hinv hall => ih ((hfits.2 x hmem).2 b' hb') hinv hall)
        hinv' hlt hall'
    · -- a conversion that was inserted before the walk came to this block
      rw [if_neg (by simpa using hlt), List.append_nil]
      have hlt' := Nat.lt_of_lt_of_le ((hw.coherent hinv).owned b x hx).1 hle
      exact hw.visit_cast_goes hinv' (hmet x hx (Nat.le_of_not_lt hlt)) (Nat.le_of_not_lt hlt) hlt'

end Walks

/-! ### The whole check -/

/-- The error that the look at the finished program finds: the first instruction that reads a value
without a type, and the first such value that it reads. -/
def unresolved? (p : Program) : Option Fatal :=
  (p.order p.nestingBound Program.root).findSome? fun u =>
    (p.instrAt u).typedOperands.findSome? fun o =>
      if (p.typeAt o).elem.isUnknown then some ⟨u, .unresolved o⟩ else none

theorem unresolved?_eq_none_iff : unresolved? p = none ↔ p.Total := by
  simp only [unresolved?, Program.Total, List.findSome?_eq_none_iff, ite_eq_right_iff,
    reduceCtorEq, imp_false, Bool.not_eq_true]

theorem stmt_lt_of_unresolved? {fatal : Fatal} (hfits : p.Fits p.nestingBound Program.root)
    (h : unresolved? p = some fatal) : fatal.stmt < p.size := by
  obtain ⟨u, hu, h⟩ := List.exists_of_findSome?_eq_some h
  obtain ⟨o, -, h⟩ := List.exists_of_findSome?_eq_some h
  split at h
  · cases h
    exact Program.lt_size_of_mem_order hfits hu
  · cases h

/-- **The look at the finished program** changes nothing and finds the first value without a type;
that the program can be looked through is known afterwards, if faults are excused. -/
theorem verifyTotality_ends (h : excuse ∨ s.program.Grounded ∧
      s.program.Fits s.program.nestingBound Program.root) :
    Ends excuse s verifyTotality fun r left =>
      s.program.Fits s.program.nestingBound Program.root ∧
        r = answerOf (unresolved? s.program) ∧ left = s := by
  by_cases hfits : s.program.Fits s.program.nestingBound Program.root
  · have hids : runOn (lookUp (·.reachable)) s =
        .ok (.ok (s.program.order s.program.nestingBound Program.root), s) := by
      rw [runOn_lookUp, Program.reachable, Program.contents_eq hfits]
      rfl
    unfold verifyTotality
    rw [ends_bind hids]
    refine Ends.mono (forM_finds _ fun u hu => ?_) fun r left hr => ⟨hfits, hr⟩
    have hlt := Program.lt_size_of_mem_order hfits hu
    unfold Finds
    rw [ends_bind (runOn_stmt_eq hlt)]
    refine forM_finds _ fun o ho => ?_
    -- what is read exists, or else its absence is excused
    refine (elemOf_ends (h.imp_right fun h => h.1 u hlt o ho)).bind ?_ (by rintro _ _ ⟨⟨⟩, _⟩)
    rintro _ left ⟨⟨⟩, rfl⟩
    split
    · exact ⟨rfl, rfl⟩
    · exact ⟨rfl, rfl⟩
  · -- blocks that are nested too deeply have no order
    have hexcuse : excuse := h.resolve_right fun h => hfits h.2
    unfold Ends verifyTotality
    rw [runOn_bind, runOn_lookUp]
    cases hids : s.program.reachable with
    | error fault => exact hexcuse
    | ok ids => exact absurd (Program.contents_eq_ok_iff.1 hids).1 hfits

/-- A check is its walk and, if that is asked for, a look at the finished program. -/
theorem runOn_pass : runOn (pass ctx) s =
    runOn (visitBlock ctx s.program.nestingBound Program.root >>= fun _ =>
      if ctx.config.verifyTotality then verifyTotality else pure ()) s := by
  rw [pass, runOn_bind, runOn_lookUp]
  rfl

/-- **A whole check** walks through the program order and then looks at what came of it. -/
theorem Walks.pass_ends
    (hw : Walks excuse ctx p (p.order p.nestingBound Program.root) Inv Met Stop)
    (hgrounded : ∀ {done s}, Inv done s → s.program.Grounded)
    (hfits : p.Fits p.nestingBound Program.root) {s : CheckState} (hs : s.program = p)
    (hinv : Inv [] s) :
    Ends excuse s (pass ctx) fun r left =>
      match r with
      | .ok () => Inv (p.order p.nestingBound Program.root) left ∧
          (ctx.config.verifyTotality = true → left.program.Total)
      | .error fatal => Stop fatal left ∨ ctx.config.verifyTotality = true ∧
          (Inv (p.order p.nestingBound Program.root) left ∧ ¬ left.program.Total) ∧
            fatal.stmt < left.program.size := by
  have hwalk := hw.visitBlock_goes hfits hinv (List.nil_append _ ▸ List.prefix_rfl)
  rw [List.nil_append] at hwalk
  unfold Ends
  rw [runOn_pass, hs]
  refine Ends.bind hwalk ?_ ?_
  · rintro ⟨⟩ s₁ ⟨-, hinv₁⟩
    split
    · next htotal =>
      -- the order of the finished program is looked through, with the conversions in it
      have hext := hw.extends' hinv₁
      have hfits₁ := hext.fits (hw.coherent hinv₁) hfits
      have hbound : s₁.program.nestingBound = p.nestingBound := hext.blocks_size
      refine (verifyTotality_ends (.inr ⟨hgrounded hinv₁, hbound.symm ▸ hfits₁⟩)).mono ?_
      rintro r left ⟨hfits₁, rfl, rfl⟩
      cases hfound : unresolved? left.program with
      | none => exact ⟨hinv₁, fun _ => unresolved?_eq_none_iff.1 hfound⟩
      | some fatal =>
        refine .inr ⟨htotal, ⟨hinv₁, fun hall => ?_⟩, ?_⟩
        · rw [unresolved?_eq_none_iff.2 hall] at hfound
          cases hfound
        · exact stmt_lt_of_unresolved? hfits₁ hfound
    · next htotal => exact ⟨hinv₁, fun h => absurd h htotal⟩
  · -- what stops the walk stops the pass
    rintro fatal s₁ ⟨-, hstop⟩
    exact .inl hstop

/-- How a whole check ends, apart from what it found in its look at the finished program. -/
theorem Walks.pass_goes
    (hw : Walks excuse ctx p (p.order p.nestingBound Program.root) Inv Met Stop)
    (hclosed : ∀ {done s}, Inv done s → s.program.Closed)
    (hfits : p.Fits p.nestingBound Program.root) (hinv : Inv [] { program := p }) :
    Ends excuse { program := p } (pass ctx) fun r left =>
      match r with
      | .ok () => Inv (p.order p.nestingBound Program.root) left
      | .error fatal => Stop fatal left ∨ ctx.config.verifyTotality = true ∧
          Inv (p.order p.nestingBound Program.root) left ∧ fatal.stmt < left.program.size := by
  refine (hw.pass_ends (fun h => (hclosed h).grounded) hfits rfl hinv).mono ?_
  rintro r left hpost
  cases r with
  | ok => exact hpost.1
  | error fatal =>
    rcases hpost with hstop | ⟨htotal, ⟨hinv, -⟩, hlt⟩
    · exact .inl hstop
    · exact .inr ⟨htotal, hinv, hlt⟩

/-- The outcome of a check that ends so. -/
def outcome (answer : Except Fatal Unit) (left : CheckState) : Outcome where
  program := left.program
  result :=
    match answer with
    | .ok () => .ok ⟨left.warnings, left.casts⟩
    | .error fatal => .error ⟨fatal.stmt, left.program.spanAt fatal.stmt, fatal.error,
        (left.program.stmtAt fatal.stmt).text, left.warnings⟩

/-- A check that comes to an end has an outcome. -/
theorem exists_typecheck {post : Except Fatal Unit → CheckState → Prop}
    (h : Ends False { program := p } (pass ctx) post)
    (hlt : ∀ fatal left, post (.error fatal) left → fatal.stmt < left.program.size) :
    ∃ answer left, p.typecheck ctx = .ok (outcome answer left) ∧ post answer left := by
  obtain ⟨answer, left, hrun, hpost⟩ := h.exists_runOn
  refine ⟨answer, left, ?_, hpost⟩
  rw [Program.typecheck, Fault.bind_eq_ok_iff]
  refine ⟨_, hrun, ?_⟩
  cases answer with
  | ok => rfl
  | error fatal =>
    -- the instruction that is reported exists, so the report does not fail
    show (CheckState.failure left fatal >>= _) = _
    rw [CheckState.failure, Program.stmt_eq (hlt fatal left hpost)]
    rfl

/-- The outcome of a check is that of its run. -/
theorem exists_run_of_typecheck {o : Outcome} (ho : p.typecheck ctx = .ok o) :
    ∃ answer left, runOn (pass ctx) { program := p } = .ok (answer, left) ∧
      o = outcome answer left := by
  rw [Program.typecheck, Fault.bind_eq_ok_iff] at ho
  obtain ⟨⟨answer, left⟩, hrun, ho⟩ := ho
  refine ⟨answer, left, hrun, ?_⟩
  cases answer with
  | ok => exact (Except.ok.inj ho).symm
  | error fatal =>
    obtain ⟨failure, hfailure, ho⟩ := Fault.bind_eq_ok_iff.1 ho
    obtain ⟨stmt, hstmt, hfailure⟩ := Fault.bind_eq_ok_iff.1 hfailure
    -- the instruction that is reported was looked up
    obtain ⟨-, rfl⟩ := Program.lt_size_of_stmt hstmt
    cases hfailure
    exact (Except.ok.inj ho).symm

/-- A check that passed ended with an answer. -/
theorem of_typecheck_ok {post : Except Fatal Unit → CheckState → Prop} {o : Outcome}
    {report : Report} (h : Ends excuse { program := p } (pass ctx) post)
    (ho : p.typecheck ctx = .ok o) (hok : o.result = .ok report) :
    ∃ left, post (.ok ()) left ∧ o = outcome (.ok ()) left := by
  obtain ⟨answer, left, hrun, rfl⟩ := exists_run_of_typecheck ho
  cases answer with
  | ok => exact ⟨left, h.of_runOn hrun, rfl⟩
  | error fatal => cases hok

/-- A check is known to pass once something of its report is known. -/
theorem exists_report {α : Type} {read : Report → α} {found : α}
    (h : (p.typecheck ctx).map (fun o => o.result.map read) = .ok (.ok found)) :
    ∃ o report, p.typecheck ctx = .ok o ∧ o.result = .ok report ∧ read report = found := by
  cases ho : p.typecheck ctx with
  | error fault => rw [ho] at h; cases h
  | ok o =>
    rw [ho] at h
    have h : o.result.map read = .ok found := Except.ok.inj h
    cases hok : o.result with
    | error failure => rw [hok] at h; cases h
    | ok report =>
      rw [hok] at h
      exact ⟨o, report, rfl, hok, Except.ok.inj h⟩

end TensorKernel.Checker
