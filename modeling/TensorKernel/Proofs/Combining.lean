import TensorKernel.Proofs.Build
import TensorKernel.Proofs.ValueRules

/-!
# What the rule of binary operators decides

The rule of a binary operator reads the types of its operands back after each conversion that it has
inserted. What it decides can be told in advance: from the types of the operands alone follow the
element type at which each operand counts (`BinaryOp.operandElem`), the type both are brought to,
the number of conversions (`BinaryOp.conversions`) and the error, if there is one
(`checkBinary_decides`).

The program around the operator plays no role, and other instructions may even name operands that do
not exist. All that is followed here is that inserted conversions leave alone what was there
(`Grown`), and which type an instruction carries (`Carries`).
-/

namespace TensorKernel

namespace BinaryOp

/-- Whether an operand of this element type has to be converted before the operator is lowered: it
is of the wrong class for the division. -/
def coerces (op : BinaryOp) (elem : ElementType) : Bool :=
  match op with
  | .floorDiv => !elem.isIntegral
  | .trueDiv => !elem.isReal
  | _ => false

/-- The element type at which an operand counts. -/
def operandElem (config : Config) (op : BinaryOp) (elem : ElementType) : ElementType :=
  if op = .floorDiv ∧ elem.isIntegral = false then config.defaultInt
  else if op = .trueDiv ∧ elem.isReal = false then config.defaultFloat
  else elem

/-- The operator that is left after lowering. -/
def undivided (op : BinaryOp) : BinaryOp := if op = .floorDiv ∨ op = .trueDiv then .div else op

/-- How many conversions an operand takes: one if it is coerced, and one more if the element type at
which it counts is not the common one. -/
def conversions (config : Config) (op : BinaryOp) (elem common : ElementType) : Nat :=
  (if op.coerces elem then 1 else 0) + if op.operandElem config elem = common then 0 else 1

/-- What is wrong with two operands of these widths that were brought to a common element type. -/
def refusal (op : BinaryOp) (wl wr : Nat) (common : ElementType) : Option TypeError :=
  if wl ≠ wr ∨ common = .unknown then some (.operandMismatch ⟨wl, common⟩ ⟨wr, common⟩)
  else if op.isBitwise && !common.isIntegral then some (.bitwiseNonIntegral op common)
  else none

variable {config : Config} {op : BinaryOp} {elem : ElementType}

theorem lowered_eq : op.lowered config elem = op.operandElem config elem := by
  cases op <;> cases h : elem.isIntegral <;> cases h' : elem.isReal <;>
    simp [lowered, lowering?, operandElem, h, h']

theorem operandCasts_eq {common : ElementType} :
    op.operandCasts config elem common = op.conversions config elem common := by
  have hcasts : op.loweringCasts config elem = if op.coerces elem then 1 else 0 := by
    cases op <;> cases h : elem.isIntegral <;> cases h' : elem.isReal <;>
      simp [loweringCasts, lowering?, coerces, h, h']
  rw [operandCasts, conversions, hcasts, lowered_eq, ElementType.castsTo]

section Refusal

variable {wl wr : Nat} {common : ElementType}

/-- The three ways in which the comparison can turn out. -/
theorem refusal_eq_iff {found : Option TypeError} : op.refusal wl wr common = found ↔
    (wl ≠ wr ∨ common = .unknown) ∧ some (.operandMismatch ⟨wl, common⟩ ⟨wr, common⟩) = found ∨
    (wl = wr ∧ common ≠ .unknown) ∧ (op.isBitwise = true ∧ common.isIntegral = false) ∧
      some (.bitwiseNonIntegral op common) = found ∨
    (wl = wr ∧ common ≠ .unknown) ∧ (op.isBitwise = true → common.isIntegral = true) ∧
      none = found := by
  by_cases hmatch : wl ≠ wr ∨ common = .unknown
  · have hmatch' : ¬ (wl = wr ∧ common ≠ .unknown) := fun h => hmatch.elim (· h.1) h.2
    simp only [refusal, hmatch, hmatch', if_true, true_and, false_and, or_false]
  · have hmatch' : wl = wr ∧ common ≠ .unknown := by rwa [not_or, not_not] at hmatch
    cases hbit : op.isBitwise <;> cases hint : common.isIntegral <;>
      simp [refusal, hmatch', hbit, hint]

theorem refusal_eq_none_iff : op.refusal wl wr common = none ↔
    wl = wr ∧ common ≠ .unknown ∧ (op.isBitwise = true → common.isIntegral = true) := by
  simp [refusal_eq_iff, and_assoc]

theorem refusal_eq_operandMismatch_iff :
    op.refusal wl wr common = some (.operandMismatch ⟨wl, common⟩ ⟨wr, common⟩) ↔
      wl ≠ wr ∨ common = .unknown := by
  simp [refusal_eq_iff]

theorem refusal_eq_bitwiseNonIntegral_iff :
    op.refusal wl wr common = some (.bitwiseNonIntegral op common) ↔
      wl = wr ∧ common ≠ .unknown ∧ op.isBitwise = true ∧ common.isIntegral = false := by
  simp [refusal_eq_iff, and_assoc]

theorem refusal_ne_ambiguousOperands : op.refusal wl wr common ≠ some (.ambiguousOperands op) := by
  simp [refusal_eq_iff]

end Refusal

end BinaryOp

namespace Checker

variable {excuse : Prop} {s s₁ s₂ left : CheckState} {j k : Nat} {u d e lhs rhs : StmtId}
  {t tl tr : VectorType} {elem target : ElementType} {config : Config} {op : BinaryOp}

theorem lowers_undivided : Lowers op op.undivided := by
  unfold BinaryOp.undivided
  split
  · next hdiv => exact .inr ⟨hdiv, rfl⟩
  · exact .inl rfl

/-! ### Conversions that leave everything else alone -/

/-- **Conversions were added**, `k` of them, and what was there is as it was. -/
structure Grown (k : Nat) (s s' : CheckState) : Prop where
  coherent : s'.program.Coherent
  size : s'.program.size = s.program.size + k
  casts : s'.casts = s.casts + k
  old : ∀ x < s.program.size, s'.program.stmtAt x = s.program.stmtAt x

namespace Grown

theorem refl (hs : s.program.Coherent) : Grown 0 s s := ⟨hs, rfl, rfl, fun _ _ => rfl⟩

theorem trans (h : Grown j s s₁) (h' : Grown k s₁ s₂) : Grown (j + k) s s₂ where
  coherent := h'.coherent
  size := by rw [h'.size, h.size, Nat.add_assoc]
  casts := by rw [h'.casts, h.casts, Nat.add_assoc]
  old x hx := by
    have hx₁ : x < s₁.program.size := h.size ▸ Nat.lt_add_right j hx
    rw [h'.old x hx₁, h.old x hx]

theorem lt_size (h : Grown k s s₁) (hd : d < s.program.size) : d < s₁.program.size :=
  h.size ▸ Nat.lt_add_right k hd

end Grown

/-- An instruction other than `u` is there and has a type. -/
structure Carries (u : StmtId) (s : CheckState) (d : StmtId) (t : VectorType) : Prop where
  lt_size : d < s.program.size
  type : s.program.typeAt d = t
  ne : d ≠ u

theorem Carries.grown (hd : Carries u s d t) (h : Grown k s s₁) : Carries u s₁ d t where
  lt_size := h.lt_size hd.lt_size
  type := by rw [Program.typeAt, h.old d hd.lt_size]; exact hd.type
  ne := hd.ne

/-- A conversion is inserted next to an instruction. -/
theorem insertCast_grows {side : Program.Side} {anchor : StmtId} (hs : s.program.Coherent)
    (hu : u < s.program.size) (ha : anchor < s.program.size) (hd : Carries u s d t) :
    Ends excuse s (insertCast side anchor d target) fun r s' => ∃ e, r = .ok e ∧ Grown 1 s s' ∧
      Carries u s' e ⟨t.width, target⟩ := by
  rw [ends_of_runOn (runOn_insertCast_eq hs ha hd.lt_size)]
  refine ⟨_, rfl, ⟨hs.splice ha, Program.size_splice, rfl, ?_⟩, ?_, ?_, Nat.ne_of_gt hu⟩
  · exact fun x hx => Program.stmtAt_splice_of_lt hx
  · exact Program.size_splice ▸ Nat.lt_succ_self _
  · exact Program.typeAt_splice_size.trans (by rw [hd.type])

theorem convert_grows (hs : s.program.Coherent) (hu : u < s.program.size) (hd : Carries u s d t) :
    Ends excuse s (convert u d t.elem target) fun r s' => ∃ e, r = .ok e ∧
      Grown (t.elem.castsTo target) s s' ∧ Carries u s' e ⟨t.width, target⟩ := by
  unfold convert ElementType.castsTo
  split
  · next heq => exact ⟨d, rfl, .refl hs, heq ▸ hd⟩
  · exact insertCast_grows hs hu hu hd

theorem coerce_grows {accepts : ElementType → Bool} (hs : s.program.Coherent)
    (hu : u < s.program.size) (hd : Carries u s d t) :
    Ends excuse s (coerce target accepts d) fun r s' => ∃ e, r = .ok e ∧
      Grown (if accepts t.elem then 0 else 1) s s' ∧
      Carries u s' e ⟨t.width, if accepts t.elem then t.elem else target⟩ := by
  unfold coerce
  rw [ends_bind (runOn_elemOf_eq hd.lt_size), hd.type]
  split
  · exact ⟨d, rfl, .refl hs, hd⟩
  · exact insertCast_grows hs hu hd.lt_size hd

/-! ### The two halves of the rule -/

/-- Lowering leaves each operand with the element type at which it counts. -/
theorem lowerOperands_grows (hs : s.program.Coherent) (hu : u < s.program.size)
    (hl : Carries u s lhs tl) (hr : Carries u s rhs tr) :
    Ends excuse s (lowerOperands config op lhs rhs) fun answer s' => ∃ l r,
      answer = .ok (op.undivided, l, r) ∧
      Grown (op.loweringCasts config tl.elem + op.loweringCasts config tr.elem) s s' ∧
      Carries u s' l ⟨tl.width, op.lowered config tl.elem⟩ ∧
      Carries u s' r ⟨tr.width, op.lowered config tr.elem⟩ := by
  unfold lowerOperands BinaryOp.loweringCasts BinaryOp.lowered
  cases hlow : op.lowering? config with
  | none =>
    -- an operator that is not lowered is no division, and stays what it is
    have hop : op.undivided = op := by cases op <;> first | rfl | cases hlow
    exact ⟨lhs, rhs, by rw [hop], .refl hs, hl, hr⟩
  | some lowering =>
    obtain ⟨target, accepts⟩ := lowering
    -- both operands in turn, each of which leaves the other as it was
    have hop : op.undivided = .div := by cases op <;> first | rfl | cases hlow
    refine (coerce_grows hs hu hl).bind ?_ ?_
    · rintro l s₁ ⟨_, ⟨⟩, hgrown, hl'⟩
      refine (coerce_grows hgrown.coherent (hgrown.lt_size hu) (hr.grown hgrown)).bind ?_ ?_
      · rintro r s₂ ⟨_, ⟨⟩, hgrown', hr'⟩
        exact ⟨l, r, by rw [hop], hgrown.trans hgrown', hl'.grown hgrown', hr'⟩
      · rintro _ _ ⟨_, ⟨⟩, _⟩
    · rintro _ _ ⟨_, ⟨⟩, _⟩

/-- **What the rule of a binary operator leaves if it passes**: an operator on two operands of the
common type, typed, and the conversions that it took. -/
structure Combined (u : StmtId) (op : BinaryOp) (s : CheckState) (t : VectorType) (k : Nat)
    (left : CheckState) : Prop where
  type : left.program.typeAt u = op.resultType t
  operands : ∃ l r, left.program.instrAt u = .binary op.undivided l r ∧
    left.program.typeAt l = t ∧ left.program.typeAt r = t
  casts : left.casts = s.casts + k
  size : left.program.size = s.program.size + k

/-- The common type decides how the second half ends, and how many conversions it takes. -/
theorem combine_ends {a b : ElementType} {wl wr : Nat} {l r : StmtId} (hgrown : Grown k s s₁)
    (hu : u < s.program.size) (hl : Carries u s₁ l ⟨wl, a⟩) (hr : Carries u s₁ r ⟨wr, b⟩) :
    Ends excuse s₁ (combine u op.undivided l r) fun answer left =>
      answer = Ruling.answer u (op.refusal wl wr (a.promote b)) ∧
      (answer = .ok () → Combined u op s ⟨wl, a.promote b⟩
        (k + a.castsTo (a.promote b) + b.castsTo (a.promote b)) left) := by
  unfold combine
  rw [ends_bind (runOn_elemOf_eq hl.lt_size), ends_bind (runOn_elemOf_eq hr.lt_size), hl.type,
    hr.type]
  refine (convert_grows hgrown.coherent (hgrown.lt_size hu) hl).bind ?_ ?_
  · -- the left operand was brought to the common type, now the right one
    rintro l' s₂ ⟨_, ⟨⟩, hgrown₂, hl'⟩
    have hu₂ := hgrown₂.lt_size (hgrown.lt_size hu)
    refine (convert_grows hgrown₂.coherent hu₂ (hr.grown hgrown₂)).bind ?_ ?_
    · rintro r' s₃ ⟨_, ⟨⟩, hgrown₃, hr'⟩
      replace hl' := hl'.grown hgrown₃
      have hu₃ := hgrown₃.lt_size hu₂
      have hall := (hgrown.trans hgrown₂).trans hgrown₃
      have hsize : (s₃.program.rewrite u (.binary op.undivided l' r')).size = s₃.program.size :=
        Program.size_rewrite
      -- the operator is pointed at both before anything is refused
      rw [ends_bind (runOn_setInstr_eq hu₃), ends_bind (runOn_typeOf_eq (hsize.symm ▸ hl'.lt_size)),
        ends_bind (runOn_typeOf_eq (hsize.symm ▸ hr'.lt_size))]
      dsimp only
      rw [Program.typeAt_rewrite, Program.typeAt_rewrite, hl'.type, hr'.type,
        lowers_undivided.isBitwise_eq, lowers_undivided.resultType_eq, BinaryOp.refusal]
      simp only [mismatch_iff]
      split
      · -- the widths or the class of types are refused
        exact ends_stopAt_bind.2 ⟨rfl, fun h => nomatch h⟩
      next hmatch =>
      rw [not_or, not_not] at hmatch
      split
      · next hbit =>
        -- the error names the operator, which is the one that was there
        rw [lowers_undivided.eq_of_isBitwise (Bool.and_eq_true_iff.1 hbit).1]
        exact ends_stopAt_bind.2 ⟨rfl, fun h => nomatch h⟩
      · refine (ends_of_runOn (runOn_setType_eq (hsize.symm ▸ hu₃))).2 ⟨rfl, ?_⟩
        intro _
        -- no operand is the operator itself, so typing it leaves them alone
        have htype : ∀ x, x ≠ u → ((s₃.program.rewrite u (.binary op.undivided l' r')).retype u
            (op.resultType ⟨wl, a.promote b⟩)).typeAt x = s₃.program.typeAt x := by
          intro x hx
          rw [Program.typeAt_retype (hsize.symm ▸ hu₃), if_neg hx, Program.typeAt_rewrite]
        refine ⟨?_, ⟨l', r', ?_, ?_, ?_⟩, ?_, ?_⟩
        · exact (Program.typeAt_retype (hsize.symm ▸ hu₃)).trans (if_pos rfl)
        · show Program.instrAt (Program.retype _ u _) u = _
          rw [Program.instrAt_retype, Program.instrAt_rewrite_self hu₃]
        · exact (htype l' hl'.ne).trans hl'.type
        · exact (htype r' hr'.ne).trans (hmatch.1 ▸ hr'.type)
        · exact hall.casts
        · exact (Program.size_retype.trans hsize).trans hall.size
    · rintro _ _ ⟨_, ⟨⟩, _⟩
  · rintro _ _ ⟨_, ⟨⟩, _⟩

variable {common : ElementType}

/-- Both halves: how they end, and what they leave if they pass. -/
theorem lower_combine_ends (hs : s.program.Coherent) (hu : u < s.program.size)
    (hl : Carries u s lhs tl) (hr : Carries u s rhs tr)
    (hcommon : op.common config tl.elem tr.elem = common) :
    Ends excuse s (do
      let (op, lhs, rhs) ← lowerOperands config op lhs rhs
      combine u op lhs rhs) fun answer left =>
        answer = Ruling.answer u (op.refusal tl.width tr.width common) ∧
        (answer = .ok () → Combined u op s ⟨tl.width, common⟩
          (op.operandCasts config tl.elem common + op.operandCasts config tr.elem common)
          left) := by
  subst hcommon
  refine (lowerOperands_grows hs hu hl hr).bind ?_ ?_
  · rintro _ s₁ ⟨l, r, ⟨⟩, hgrown, hl', hr'⟩
    refine (combine_ends hgrown hu hl' hr').mono ?_
    intro answer left hend
    -- the conversions were counted as they were made, and are told apart by operand
    have hcasts : ∀ a b c d : Nat, a + b + c + d = a + c + (b + d) := by omega
    rw [hcasts] at hend
    exact hend
  · rintro _ _ ⟨_, _, ⟨⟩, _⟩

/-- The whole rule, for operands of any two types. It looks at the right operand first only if
nothing is known of the left one. -/
theorem checkBinary_ends (hs : s.program.Coherent) (hu : u < s.program.size)
    (hl : Carries u s lhs tl) (hr : Carries u s rhs tr)
    (hcommon : op.common config tl.elem tr.elem = common) :
    Ends excuse s (checkBinary config u op lhs rhs) fun answer left =>
      answer = Ruling.answer u (if tl.isUnknown && tr.isUnknown then some (.ambiguousOperands op)
        else op.refusal tl.width tr.width common) ∧
      (answer = .ok () → Combined u op s ⟨tl.width, common⟩
        (op.operandCasts config tl.elem common + op.operandCasts config tr.elem common) left) := by
  rw [checkBinary_eq, ends_bind (runOn_elemOf_eq hl.lt_size), hl.type]
  dsimp only
  rw [show tl.elem.isUnknown = tl.isUnknown from rfl]
  cases tl.isUnknown with
  -- a known operand is enough to go on; only if neither is known the check stops
  | false => exact lower_combine_ends hs hu hl hr hcommon
  | true =>
    rw [if_pos rfl, ends_bind (runOn_elemOf_eq hr.lt_size), hr.type,
      show tr.elem.isUnknown = tr.isUnknown from rfl]
    cases tr.isUnknown with
    | false => exact lower_combine_ends hs hu hl hr hcommon
    | true => exact ends_stopAt_bind.2 ⟨rfl, fun h => nomatch h⟩

/-! ### What is decided -/

/-- **The rule of binary operators decides what its operands' types say.** Let `common` be the
element type that the two operands promote to, each at the element type at which it counts. The
rule comes to an end, and it passes exactly if something is known of one of the operands, they are
equally wide, the common type is known, and it is integral if the operator is bitwise. Then the
instruction has the common type, or `i32` if it compares, both of its operands are of the common
type, and each of them took the conversions that its own type calls for. Otherwise the error is the
first of three that applies. -/
theorem checkBinary_decides {a b : ElementType} {wl wr : Nat} (hs : s.program.Coherent)
    (hu : u < s.program.size) (hlhs : lhs < s.program.size) (hrhs : rhs < s.program.size)
    (hlu : lhs ≠ u) (hru : rhs ≠ u) (hl : s.program.typeAt lhs = ⟨wl, a⟩)
    (hr : s.program.typeAt rhs = ⟨wr, b⟩)
    (hcommon : (op.operandElem config a).promote (op.operandElem config b) = common) :
    ∃ answer left, runOn (checkBinary config u op lhs rhs) s = .ok (answer, left) ∧
      (answer = .ok () ↔ ¬ (a = .unknown ∧ b = .unknown) ∧ wl = wr ∧ common ≠ .unknown ∧
        (op.isBitwise = true → common.isIntegral = true)) ∧
      (answer = .ok () →
        left.program.typeAt u = ⟨wl, if op.isComparison then .i32 else common⟩ ∧
        (∃ l r, left.program.instrAt u = .binary op.undivided l r ∧
          left.program.typeAt l = ⟨wl, common⟩ ∧ left.program.typeAt r = ⟨wl, common⟩) ∧
        left.casts = s.casts + (op.conversions config a common + op.conversions config b common) ∧
        left.program.size =
          s.program.size + (op.conversions config a common + op.conversions config b common)) ∧
      (answer = .error ⟨u, .ambiguousOperands op⟩ ↔ a = .unknown ∧ b = .unknown) ∧
      (answer = .error ⟨u, .operandMismatch ⟨wl, common⟩ ⟨wr, common⟩⟩ ↔
        ¬ (a = .unknown ∧ b = .unknown) ∧ (wl ≠ wr ∨ common = .unknown)) ∧
      (answer = .error ⟨u, .bitwiseNonIntegral op common⟩ ↔
        ¬ (a = .unknown ∧ b = .unknown) ∧ wl = wr ∧ common ≠ .unknown ∧ op.isBitwise = true ∧
          common.isIntegral = false) := by
  have hcommon' : op.common config a b = common := by
    rw [BinaryOp.common, BinaryOp.lowered_eq, BinaryOp.lowered_eq, hcommon]
  obtain ⟨answer, left, hrun, hanswer, hleft⟩ :=
    (checkBinary_ends hs hu ⟨hlhs, hl, hlu⟩ ⟨hrhs, hr, hru⟩ hcommon').exists_runOn
  -- the first question of the rule, about the element types that were given
  have hboth : ((⟨wl, a⟩ : VectorType).isUnknown && (⟨wr, b⟩ : VectorType).isUnknown) = true ↔
      a = .unknown ∧ b = .unknown := by
    rw [Bool.and_eq_true, VectorType.isUnknown, VectorType.isUnknown, ElementType.isUnknown_iff,
      ElementType.isUnknown_iff]
  refine ⟨answer, left, hrun, ?_, ?_, ?_⟩
  · -- it passes if both are not unknown and nothing is refused
    rw [hanswer, Ruling.answer_eq_ok_iff]
    by_cases hunknown : a = .unknown ∧ b = .unknown
    · rw [if_pos (hboth.2 hunknown)]
      exact iff_of_false (Option.some_ne_none _) fun h => h.1 hunknown
    · rw [if_neg (mt hboth.1 hunknown), BinaryOp.refusal_eq_none_iff]
      exact (and_iff_right hunknown).symm
  · intro h
    -- what it leaves if it passes was collected on the way
    obtain ⟨htype, hoperands, hcasts, hsize⟩ := hleft h
    rw [BinaryOp.operandCasts_eq, BinaryOp.operandCasts_eq] at hcasts hsize
    refine ⟨?_, hoperands, hcasts, hsize⟩
    rw [htype, BinaryOp.resultType]
    split <;> rfl
  · have hstop : ∀ error, answer = .error ⟨u, error⟩ ↔
        (if (⟨wl, a⟩ : VectorType).isUnknown && (⟨wr, b⟩ : VectorType).isUnknown then
          some (.ambiguousOperands op) else op.refusal wl wr common) = some error := by
      -- each error is read off from the one decision that the rule makes
      intro error
      rw [hanswer, Ruling.answer_eq_error_iff]
      simp
    rw [hstop, hstop, hstop]
    by_cases hunknown : a = .unknown ∧ b = .unknown
    · rw [if_pos (hboth.2 hunknown)]
      exact ⟨iff_of_true rfl hunknown, iff_of_false (fun h => by cases h) fun h => h.1 hunknown,
        iff_of_false (fun h => by cases h) fun h => h.1 hunknown⟩
    · rw [if_neg (mt hboth.1 hunknown)]
      exact ⟨iff_of_false BinaryOp.refusal_ne_ambiguousOperands hunknown,
        BinaryOp.refusal_eq_operandMismatch_iff.trans (and_iff_right hunknown).symm,
        BinaryOp.refusal_eq_bitwiseNonIntegral_iff.trans (and_iff_right hunknown).symm⟩

/-- A floor division of a real number by a short integer. -/
def divisionSteps : List Step :=
  [.emit (.const (.f32 0)), .emit .alloca, .typed 1 (.scalar .u16), .emit (.binary .floorDiv 0 1)]

theorem checkBinary_decides_division :
    ∃ p ids left, Program.build divisionSteps = .ok (p, ids) ∧
      runOn (checkBinary {} 2 .floorDiv 0 1) { program := p } = .ok (.ok (), left) ∧
      left.program.typeAt 2 = .scalar .i32 ∧
      (∃ l r, left.program.instrAt 2 = .binary .div l r ∧
        left.program.typeAt l = .scalar .i32 ∧ left.program.typeAt r = .scalar .i32) ∧
      left.casts = 2 ∧ left.program.size = 5 := by
  -- the two operands as they are built; the division itself is the general theorem
  have hmade : (Program.build divisionSteps).map
      (fun made => (made.1.size, made.1.typeAt 0, made.1.typeAt 1)) =
      .ok (3, .scalar .f32, .scalar .u16) := by decide +kernel
  cases hbuild : Program.build divisionSteps with
  | error fault => rw [hbuild] at hmade; cases hmade
  | ok made =>
    rw [hbuild] at hmade
    obtain ⟨hsize, hl, hr⟩ : made.1.size = 3 ∧ made.1.typeAt 0 = .scalar .f32 ∧
        made.1.typeAt 1 = .scalar .u16 := by simpa using Except.ok.inj hmade
    have hlt : ∀ {x}, x < 3 → x < made.1.size := fun h => hsize ▸ h
    have hcommon : (BinaryOp.floorDiv.operandElem {} .f32).promote
        (BinaryOp.floorDiv.operandElem {} .u16) = .i32 := by decide
    obtain ⟨answer, left, hrun, hok, hleft, -⟩ :=
      checkBinary_decides (s := { program := made.1 }) (u := 2) (Program.build_coherent hbuild)
        (hlt (by decide)) (hlt (by decide)) (hlt (by decide)) (by decide) (by decide) hl hr hcommon
    obtain rfl : answer = .ok () := hok.2 (by decide)
    obtain ⟨htype, hoperands, hcasts, hgrown⟩ := hleft rfl
    refine ⟨made.1, made.2, left, rfl, hrun, htype, hoperands, hcasts, ?_⟩
    rw [hgrown, hsize]
    rfl

end Checker

end TensorKernel
