import TensorKernel.Proofs.Progress

/-!
# The rules for values obey their rulings

`Checker.Obeys` is the specification that every typing rule meets: the rule ends as `ruling` says,
with the settings, conversions and warnings `ruling` counts, by moves of its own instruction only;
and if it passes, the types it compared are as they should be (`Agreed`). This module has the
rules for operators, selections, shuffles and range assumptions.

A binary operator is lowered first and combined afterwards. The two halves are named here
(`lowerOperands` and `combine`), so that each has its own lemma.
-/

namespace TensorKernel

/-- **What the rule of `u` makes sure of**, in terms of the types that it leaves. -/
def Agreed (signature : Signature) (τ : TypeMap) (u : StmtId) : Instr → Prop
  | .binary op lhs rhs =>
    (τ lhs).isUnknown = false ∧ τ lhs = τ rhs ∧ τ u = op.resultType (τ lhs)
  | .ternary _ cond onTrue onFalse =>
    (τ cond).elem = .i32 ∧ (τ cond).width = (τ onTrue).width ∧
      (τ onTrue).width = (τ onFalse).width ∧ (τ onTrue).elem = (τ onFalse).elem
  | .assumeInRange input base _ _ => τ input = τ base
  | .argStore arg value =>
    ∃ slot, signature.slot? arg = some slot ∧ (τ value).elem = slot.elem
  | .globalPtr nodes indices =>
    ∀ index ∈ indices, (τ index).elem.isIntegral = true ∧ (τ index).width = nodes.length
  | _ => True

namespace Checker

variable {signature : Signature} {n k : Nat} {u o : StmtId} {s s₁ : CheckState}
  {sets : List (StmtId × VectorType)} {losses : List PrecisionLoss} {t : VectorType}
  {excuse : Prop}

/-- **The rule of `u` obeys a ruling.** -/
structure Obeys (signature : Signature) (n : Nat) (u : StmtId) (s : CheckState) (ruling : Ruling)
    (answer : Except Fatal Unit) (left : CheckState) : Prop where
  verdict : answer = ruling.verdict u
  progress : Progress n u s left ruling.sets ruling.casts ruling.losses
  agreed : answer = .ok () → u ∉ (s.program.instrAt u).operands →
    Agreed signature left.program.typeAt u (left.program.instrAt u)

/-! ### The last step of a rule -/

/-- A rule that stops before it has done anything. -/
theorem refuse_obeys {error : TypeError} :
    Obeys signature n u s (.refuse error) (.error ⟨u, error⟩) s :=
  ⟨rfl, .refl n u s, fun h => nomatch h⟩

theorem stopAt_obeys {error : TypeError} :
    Ends excuse s (stopAt u error) (Obeys signature n u s (.refuse error)) := refuse_obeys

/-- What would have followed is not run. -/
theorem stopAt_bind_obeys {α : Type} {error : TypeError} {next : α → Checker Unit} :
    Ends excuse s (stopAt u error >>= next) (Obeys signature n u s (.refuse error)) :=
  ends_stopAt_bind.2 refuse_obeys

theorem pure_obeys (h : Agreed signature s.program.typeAt u (s.program.instrAt u)) :
    Ends excuse s (pure ()) (Obeys signature n u s {}) :=
  ⟨rfl, .refl n u s, fun _ _ => h⟩

/-- A rule that only types its instruction. -/
theorem setType_obeys (hs : Ready n u s.program)
    (h : Agreed signature (s.program.retype u t).typeAt u (s.program.instrAt u)) :
    Ends excuse s (setType u t) (Obeys signature n u s (.set u t)) := by
  rw [ends_of_runOn (runOn_setType_eq hs.lt_size)]
  refine ⟨rfl, (Progress.refl n u s).own hs, ?_⟩
  intro _ _
  rw [Program.instrAt_retype]
  exact h

/-- A rule that points its instruction at what is held and types it. -/
theorem Working.finish {i : Instr} (h : Working n u s s₁ [] k losses)
    (hi : Redirected (s₁.program.Serves n u) (s₁.program.instrAt u) i) :
    Progress n u s { s₁ with program := (s₁.program.rewrite u i).retype u t } [(u, t)] k losses :=
  (h.toProgress.rewrite h.start hi).own h.start

/-- What is held keeps its type when the instruction is typed. -/
theorem Held.typeAt_finish {p : Program} {d : StmtId} {t' : VectorType} {i : Instr}
    (h : Held n u p o d t') (hu : u < p.size) (hself : u ∉ (p.instrAt u).operands) :
    ((p.rewrite u i).retype u t).typeAt d = t' := by
  rw [Program.typeAt_retype (by rw [Program.size_rewrite]; exact hu), if_neg (h.ne hself),
    Program.typeAt_rewrite, h.type]

theorem Ready.instrAt_finish {p : Program} {i : Instr} (h : Ready n u p) :
    ((p.rewrite u i).retype u t).instrAt u = i := by
  rw [Program.instrAt_retype, Program.instrAt_rewrite_self h.lt_size]

theorem runOn_setType_rewrite {i : Instr} (hs : Ready n u s.program) :
    runOn (setType u t) { s with program := s.program.rewrite u i } =
      .ok (.ok (), { s with program := (s.program.rewrite u i).retype u t }) :=
  runOn_setType_eq (by rw [Program.size_rewrite]; exact hs.lt_size)

/-! ### Unary operators, shuffles and range assumptions -/

theorem checkUnary_obeys {op : UnaryOp} (hs : Ready n u s.program)
    (hi : s.program.instrAt u = .unary op o) :
    Ends excuse s (checkUnary u op o)
      (Obeys signature n u s (.unary s.program.typeAt u op o)) := by
  have ho := hs.grounded u hs.lt_size o (hi ▸ List.mem_singleton.2 rfl)
  unfold checkUnary Ruling.unary
  rw [ends_bind (runOn_typeOf_eq ho)]
  split
  · exact stopAt_bind_obeys
  · exact setType_obeys hs (by rw [hi]; trivial)

theorem checkShuffle_obeys {lanes : List Lane} (hs : Ready n u s.program)
    (hi : s.program.instrAt u = .shuffle lanes) :
    Ends excuse s (checkShuffle u lanes)
      (Obeys signature n u s (.shuffle s.program.typeAt u lanes)) := by
  cases lanes with
  | nil => exact stopAt_obeys
  | cons first lanes =>
    have ho := hs.grounded u hs.lt_size first.stmt (hi ▸ List.mem_cons_self)
    unfold checkShuffle Ruling.shuffle
    -- the element type is that of the first lane, and the width stays
    rw [ends_bind (runOn_elemOf_eq ho), ends_of_runOn (runOn_setElem_eq hs.lt_size)]
    refine ⟨rfl, (Progress.refl n u s).own hs, ?_⟩
    intro _ _
    rw [Program.instrAt_retype, hi]
    trivial

theorem checkRangeAssumption_obeys {input base : StmtId} {low high : Int}
    (hs : Ready n u s.program) (hi : s.program.instrAt u = .assumeInRange input base low high) :
    Ends excuse s (checkRangeAssumption u input base)
      (Obeys signature n u s (.assumeInRange s.program.typeAt u input base)) := by
  have hinput := hs.grounded u hs.lt_size input (hi ▸ List.mem_cons_self)
  have hbase := hs.grounded u hs.lt_size base
    (hi ▸ List.mem_cons_of_mem _ List.mem_cons_self)
  unfold checkRangeAssumption Ruling.assumeInRange
  rw [ends_bind (runOn_typeOf_eq hinput), ends_bind (runOn_typeOf_eq hbase)]
  split
  · exact stopAt_bind_obeys
  · next heq =>
    refine setType_obeys hs ?_
    rw [hi]
    -- `u` may be its own input or base, and then both types are the new one
    change (s.program.retype u _).typeAt input = (s.program.retype u _).typeAt base
    rw [Program.typeAt_retype hs.lt_size, Program.typeAt_retype hs.lt_size, not_not.1 heq]
    split <;> split <;> rfl

/-! ### Selection -/

theorem checkTernary_obeys {op : TernaryOp} {cond onTrue onFalse : StmtId}
    (hs : Ready n u s.program) (hi : s.program.instrAt u = .ternary op cond onTrue onFalse) :
    Ends excuse s (checkTernary u op cond onTrue onFalse)
      (Obeys signature n u s (.ternary s.program.typeAt u op cond onTrue onFalse)) := by
  have hcond : cond ∈ (s.program.instrAt u).typedOperands := hi ▸ List.mem_cons_self
  have htrue : onTrue ∈ (s.program.instrAt u).typedOperands :=
    hi ▸ List.mem_cons_of_mem _ List.mem_cons_self
  have hfalse : onFalse ∈ (s.program.instrAt u).typedOperands :=
    hi ▸ List.mem_cons_of_mem _ (List.mem_cons_of_mem _ List.mem_cons_self)
  unfold checkTernary Ruling.ternary
  split
  · exact stopAt_bind_obeys
  next hop =>
  have hselect : op = .select := by
    cases op with
    | select => rfl
    | ifte => exact absurd rfl hop
  subst hselect
  show Ends excuse s (typeOf cond >>= _) _
  rw [ends_bind (runOn_typeOf_eq (hs.held hcond).lt_size),
    ends_bind (runOn_typeOf_eq (hs.held htrue).lt_size),
    ends_bind (runOn_typeOf_eq (hs.held hfalse).lt_size)]
  dsimp only
  split
  · exact stopAt_bind_obeys
  next helem =>
  split
  · exact stopAt_bind_obeys
  next hwidth =>
  rw [not_or, not_not, not_not] at hwidth
  -- both branches are brought to their common type, the condition is held on to
  refine (convert_ends (Working.refl hs) (hs.held htrue)).bind ?_ ?_
  · rintro e s₁ ⟨_, ⟨⟩, hw, he, hkeep⟩
    refine (convert_ends hw (hkeep _ _ _ (hs.held hfalse))).bind ?_ ?_
    · rintro f s₂ ⟨_, ⟨⟩, hw', hf, hkeep'⟩
      replace he := hkeep' _ _ _ he
      have hc := hkeep' _ _ _ (hkeep _ _ _ (hs.held hcond))
      have hr := hw'.ready
      have hredirect : Redirected (s₂.program.Serves n u) (s₂.program.instrAt u)
          (.ternary .select cond e f) :=
        hw'.instr_eq.trans hi ▸ .select he.serves hf.serves
      rw [ends_bind (runOn_setInstr_eq hr.lt_size), ends_of_runOn (runOn_setType_rewrite hr)]
      -- first what the rule did, then what it made sure of
      refine ⟨rfl, ?_, ?_⟩
      · have hp := hw'.finish (t := ⟨(s.program.typeAt cond).width,
          (s.program.typeAt onTrue).elem.promote (s.program.typeAt onFalse).elem⟩) hredirect
        rwa [Nat.zero_add] at hp
      · -- all three have the types that were compared, for none of them is `u`
        intro _ hself
        rw [← hw'.instr_eq] at hself
        rw [hr.instrAt_finish]
        simp only [Agreed]
        rw [hc.typeAt_finish hr.lt_size hself, he.typeAt_finish hr.lt_size hself,
          hf.typeAt_finish hr.lt_size hself]
        exact ⟨not_not.1 helem, hwidth.1, hwidth.2, rfl⟩
    · rintro _ _ ⟨_, ⟨⟩, _⟩
  · rintro _ _ ⟨_, ⟨⟩, _⟩

/-! ### Binary operators -/

/-- The first half of the rule: a division becomes a plain one, of operands of the right class. -/
def lowerOperands (config : Config) (op : BinaryOp) (lhs rhs : StmtId) :
    Checker (BinaryOp × StmtId × StmtId) :=
  match op.lowering? config with
  | some (target, accepts) => do
    let lhs ← coerce target accepts lhs
    let rhs ← coerce target accepts rhs
    return (.div, lhs, rhs)
  | none => return (op, lhs, rhs)

/-- The second half: the operands are brought to their common type and compared. -/
def combine (id : StmtId) (op : BinaryOp) (lhs rhs : StmtId) : Checker Unit := do
  let lhsElem ← elemOf lhs
  let rhsElem ← elemOf rhs
  let common := ElementType.promote lhsElem rhsElem
  let lhs ← convert id lhs lhsElem common
  let rhs ← convert id rhs rhsElem common
  setInstr id (.binary op lhs rhs)
  let lhsType ← typeOf lhs
  let rhsType ← typeOf rhs
  if lhsType ≠ rhsType ∨ lhsType.isUnknown then
    stopAt id (.operandMismatch lhsType rhsType)
  if op.isBitwise && !lhsType.elem.isIntegral then
    stopAt id (.bitwiseNonIntegral op lhsType.elem)
  setType id (op.resultType lhsType)

/-- The operands are brought to their common type, and the instruction is pointed at what came of
them. -/
def bring (id : StmtId) (op : BinaryOp) (lhs rhs : StmtId) : Checker (StmtId × StmtId) := do
  let lhsElem ← elemOf lhs
  let rhsElem ← elemOf rhs
  let common := ElementType.promote lhsElem rhsElem
  let lhs ← convert id lhs lhsElem common
  let rhs ← convert id rhs rhsElem common
  setInstr id (.binary op lhs rhs)
  return (lhs, rhs)

/-- What the operands were brought to is compared, and the instruction is typed. -/
def compareOperands (id : StmtId) (op : BinaryOp) (lhs rhs : StmtId) : Checker Unit := do
  let lhsType ← typeOf lhs
  let rhsType ← typeOf rhs
  if lhsType ≠ rhsType ∨ lhsType.isUnknown then
    stopAt id (.operandMismatch lhsType rhsType)
  if op.isBitwise && !lhsType.elem.isIntegral then
    stopAt id (.bitwiseNonIntegral op lhsType.elem)
  setType id (op.resultType lhsType)

theorem combine_eq (id : StmtId) (op : BinaryOp) (lhs rhs : StmtId) :
    combine id op lhs rhs = (do
      let (lhs, rhs) ← bring id op lhs rhs
      compareOperands id op lhs rhs) := by
  unfold combine bring compareOperands
  simp only [bind_assoc, pure_bind]

theorem checkBinary_eq (config : Config) (op : BinaryOp) (lhs rhs : StmtId) :
    checkBinary config u op lhs rhs = (do
      if (← elemOf lhs).isUnknown then
        if (← elemOf rhs).isUnknown then
          stopAt u (.ambiguousOperands op)
      let (op, lhs, rhs) ← lowerOperands config op lhs rhs
      combine u op lhs rhs) := by
  unfold checkBinary lowerOperands combine
  cases op.lowering? config with
  | none => rfl
  | some lowering => simp only [bind_assoc, pure_bind]

/-- An operator as it is after lowering. -/
def Lowers (op op' : BinaryOp) : Prop := op' = op ∨ (op = .floorDiv ∨ op = .trueDiv) ∧ op' = .div

theorem Lowers.isBitwise_eq {op op' : BinaryOp} (h : Lowers op op') :
    op'.isBitwise = op.isBitwise := by
  obtain rfl | ⟨rfl | rfl, rfl⟩ := h <;> rfl

theorem Lowers.resultType_eq {op op' : BinaryOp} (h : Lowers op op') (t : VectorType) :
    op'.resultType t = op.resultType t := by
  obtain rfl | ⟨rfl | rfl, rfl⟩ := h <;> rfl

/-- Lowering leaves an error about a bitwise operator alone: no division is one. -/
theorem Lowers.eq_of_isBitwise {op op' : BinaryOp} (h : Lowers op op')
    (hb : op.isBitwise = true) : op' = op := by
  obtain rfl | ⟨rfl | rfl, rfl⟩ := h
  · rfl
  · cases hb
  · cases hb

variable {config : Config} {op : BinaryOp} {lhs rhs : StmtId}

/-- What lowering leaves behind: both operands are held at the element types that lowering gives
them. -/
theorem lowerOperands_ends (hs : Ready n u s.program)
    (hi : s.program.instrAt u = .binary op lhs rhs) :
    Ends excuse s (lowerOperands config op lhs rhs) fun r s₁ => ∃ op' l r',
      r = .ok (op', l, r') ∧ Lowers op op' ∧
      Working n u s s₁ [] (op.loweringCasts config (s.program.typeAt lhs).elem +
        op.loweringCasts config (s.program.typeAt rhs).elem) [] ∧
      Held n u s₁.program lhs l ⟨(s.program.typeAt lhs).width,
        op.lowered config (s.program.typeAt lhs).elem⟩ ∧
      Held n u s₁.program rhs r' ⟨(s.program.typeAt rhs).width,
        op.lowered config (s.program.typeAt rhs).elem⟩ := by
  have hlhs : lhs ∈ (s.program.instrAt u).typedOperands := hi ▸ List.mem_cons_self
  have hrhs : rhs ∈ (s.program.instrAt u).typedOperands :=
    hi ▸ List.mem_cons_of_mem _ List.mem_cons_self
  unfold lowerOperands BinaryOp.loweringCasts BinaryOp.lowered
  cases hlow : op.lowering? config with
  | none => exact ⟨op, lhs, rhs, rfl, .inl rfl, .refl hs, hs.held hlhs, hs.held hrhs⟩
  | some lowering =>
    obtain ⟨target, accepts⟩ := lowering
    -- only the divisions are lowered
    have hdiv : op = .floorDiv ∨ op = .trueDiv := by
      cases op <;> first | exact .inl rfl | exact .inr rfl | cases hlow
    refine (coerce_ends (Working.refl hs) hlhs).bind ?_ ?_
    · rintro l s₁ ⟨_, ⟨⟩, hw, hl, hkeep⟩
      -- the right operand has the type that it had before the left one was converted
      have hr := hkeep _ _ _ (hs.held hrhs)
      refine (coerce_ends hw hr.mem).bind ?_ ?_
      · rintro r' s₂ ⟨_, ⟨⟩, hw', hr', hkeep'⟩
        rw [Nat.zero_add, hr.type] at hw'
        rw [hr.type] at hr'
        exact ⟨.div, l, r', rfl, .inr ⟨hdiv, rfl⟩, hw', hkeep' _ _ _ hl, hr'⟩
      · rintro _ _ ⟨_, ⟨⟩, _⟩
    · rintro _ _ ⟨_, ⟨⟩, _⟩

/-- The mismatch that is left after promotion is one of widths, or of nothing known. -/
theorem mismatch_iff {w w' : Nat} {common : ElementType} :
    ((⟨w, common⟩ : VectorType) ≠ ⟨w', common⟩ ∨
      (⟨w, common⟩ : VectorType).isUnknown = true) ↔ w ≠ w' ∨ common = .unknown := by
  simp [VectorType.isUnknown]

/-- What bringing the operands to their common type leaves behind: both are held at it, and the
instruction reads them. -/
theorem bring_ends {op' : BinaryOp} {l r : StmtId} {tl tr : VectorType} (hop : Lowers op op')
    (hi : s.program.instrAt u = .binary op lhs rhs) (hw : Working n u s s₁ [] k [])
    (hl : Held n u s₁.program lhs l tl) (hr : Held n u s₁.program rhs r tr) :
    Ends excuse s₁ (bring u op' l r) fun answer left => ∃ l' r' s₂, answer = .ok (l', r') ∧
      left = { s₂ with program := s₂.program.rewrite u (.binary op' l' r') } ∧
      Working n u s s₂ [] (k + tl.elem.castsTo (tl.elem.promote tr.elem) +
        tr.elem.castsTo (tl.elem.promote tr.elem)) [] ∧
      Held n u s₂.program lhs l' ⟨tl.width, tl.elem.promote tr.elem⟩ ∧
      Held n u s₂.program rhs r' ⟨tr.width, tl.elem.promote tr.elem⟩ ∧
      Redirected (s₂.program.Serves n u) (s₂.program.instrAt u) (.binary op' l' r') := by
  unfold bring
  rw [ends_bind (runOn_elemOf_eq hl.lt_size), ends_bind (runOn_elemOf_eq hr.lt_size), hl.type,
    hr.type]
  dsimp only
  refine (convert_ends hw hl).bind ?_ ?_
  · rintro l' s₂ ⟨_, ⟨⟩, hw₂, hl', hkeep⟩
    refine (convert_ends hw₂ (hkeep _ _ _ hr)).bind ?_ ?_
    · rintro r' s₃ ⟨_, ⟨⟩, hw₃, hr', hkeep'⟩
      -- converting the right operand leaves the left one as it was brought
      replace hl' := hkeep' _ _ _ hl'
      have hredirect : Redirected (s₃.program.Serves n u) (s₃.program.instrAt u)
          (.binary op' l' r') :=
        hw₃.instr_eq.trans hi ▸ .binary hop hl'.serves hr'.serves
      rw [ends_bind (runOn_setInstr_eq hw₃.ready.lt_size)]
      exact ⟨l', r', s₃, rfl, rfl, hw₃, hl', hr', hredirect⟩
    · rintro _ _ ⟨_, ⟨⟩, _⟩
  · rintro _ _ ⟨_, ⟨⟩, _⟩

theorem combine_obeys {op' : BinaryOp} {l r : StmtId} (hop : Lowers op op')
    (hi : s.program.instrAt u = .binary op lhs rhs)
    (hw : Working n u s s₁ [] (op.loweringCasts config (s.program.typeAt lhs).elem +
      op.loweringCasts config (s.program.typeAt rhs).elem) [])
    (hl : Held n u s₁.program lhs l ⟨(s.program.typeAt lhs).width,
      op.lowered config (s.program.typeAt lhs).elem⟩)
    (hr : Held n u s₁.program rhs r ⟨(s.program.typeAt rhs).width,
      op.lowered config (s.program.typeAt rhs).elem⟩)
    (hknown : ¬ ((s.program.typeAt lhs).isUnknown && (s.program.typeAt rhs).isUnknown) = true) :
    Ends excuse s₁ (combine u op' l r)
      (Obeys signature n u s (.binary config s.program.typeAt u op lhs rhs)) := by
  rw [combine_eq]
  unfold Ruling.binary
  rw [if_neg hknown]
  dsimp only [BinaryOp.common, BinaryOp.operandCasts]
  refine (bring_ends hop hi hw hl hr).bind ?_ (by rintro _ _ ⟨_, _, _, ⟨⟩, _⟩)
  rintro _ _ ⟨l', r', s₂, ⟨⟩, rfl, hw₂, hl', hr', hredirect⟩
  have hu := hw₂.ready
  have hsize : (s₂.program.rewrite u (.binary op' l' r')).size = s₂.program.size :=
    Program.size_rewrite
  unfold compareOperands
  rw [ends_bind (runOn_typeOf_eq (hsize.symm ▸ hl'.lt_size)),
    ends_bind (runOn_typeOf_eq (hsize.symm ▸ hr'.lt_size))]
  dsimp only
  rw [Program.typeAt_rewrite, Program.typeAt_rewrite, hl'.type, hr'.type]
  simp only [mismatch_iff]
  -- the conversions were counted as they were made, the ruling counts them by operand
  have hcasts : ∀ a b c d : Nat, a + b + c + d = a + c + (b + d) := by omega
  rw [hcasts] at hw₂
  split
  · -- the conversions are there, and the rule stops all the same
    rw [ends_stopAt_bind]
    exact ⟨rfl, hw₂.toProgress.rewrite hw₂.start hredirect, fun h => nomatch h⟩
  next hmatch =>
  rw [not_or, not_not] at hmatch
  rw [hop.isBitwise_eq]
  split
  · next hbit =>
    -- the error names the operator, which is the one that was there
    obtain rfl : op' = op := hop.eq_of_isBitwise (Bool.and_eq_true_iff.1 hbit).1
    rw [ends_stopAt_bind]
    exact ⟨rfl, hw₂.toProgress.rewrite hw₂.start hredirect, fun h => nomatch h⟩
  · refine (ends_of_runOn (runOn_setType_rewrite hu)).2 ⟨rfl, ?_, ?_⟩
    · rw [hop.resultType_eq]
      exact hw₂.finish hredirect
    · intro _ hself
      rw [← hw₂.instr_eq] at hself
      rw [hu.instrAt_finish]
      simp only [Agreed]
      rw [hl'.typeAt_finish hu.lt_size hself, hr'.typeAt_finish hu.lt_size hself,
        Program.typeAt_retype (hsize.symm ▸ hu.lt_size), if_pos rfl, hmatch.1]
      exact ⟨Bool.eq_false_iff.2 fun h => hmatch.2 ((ElementType.isUnknown_iff _).1 h),
        rfl, rfl⟩

theorem checkBinary_obeys (hs : Ready n u s.program)
    (hi : s.program.instrAt u = .binary op lhs rhs) :
    Ends excuse s (checkBinary config u op lhs rhs)
      (Obeys signature n u s (.binary config s.program.typeAt u op lhs rhs)) := by
  have hlhs := hs.grounded u hs.lt_size lhs (hi ▸ List.mem_cons_self)
  have hrhs := hs.grounded u hs.lt_size rhs
    (hi ▸ List.mem_cons_of_mem _ List.mem_cons_self)
  -- what the rule does once it knows the type of at least one operand
  have hrest : ¬ ((s.program.typeAt lhs).isUnknown && (s.program.typeAt rhs).isUnknown) = true →
      Ends excuse s (do
        let (op, lhs, rhs) ← lowerOperands config op lhs rhs
        combine u op lhs rhs)
        (Obeys signature n u s (.binary config s.program.typeAt u op lhs rhs)) := by
    intro hknown
    refine (lowerOperands_ends hs hi).bind ?_ ?_
    · rintro ⟨op', l, r⟩ s₁ ⟨_, _, _, ⟨⟩, hop, hw, hl, hr⟩
      exact combine_obeys hop hi hw hl hr hknown
    · rintro _ _ ⟨_, _, _, ⟨⟩, _⟩
  -- the rule looks at the right operand only if nothing is known of the left one
  rw [checkBinary_eq, ends_bind (runOn_elemOf_eq hlhs)]
  dsimp only
  split
  · next hl =>
    rw [ends_bind (runOn_elemOf_eq hrhs)]
    split
    · next hr =>
      rw [ends_stopAt_bind]
      have hboth : ((s.program.typeAt lhs).isUnknown && (s.program.typeAt rhs).isUnknown) = true :=
        Bool.and_eq_true_iff.2 ⟨hl, hr⟩
      rw [Ruling.binary, if_pos hboth]
      exact refuse_obeys
    · next hr => exact hrest fun h => hr (Bool.and_eq_true_iff.1 h).2
  · next hl => exact hrest fun h => hl (Bool.and_eq_true_iff.1 h).1

end Checker

end TensorKernel
