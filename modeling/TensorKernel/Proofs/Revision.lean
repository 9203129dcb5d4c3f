import TensorKernel.Proofs.Edit
import TensorKernel.Proofs.MemoryRules
import TensorKernel.Proofs.Parallel

/-!
# Every rule is a sequence of edits

`Checker.Revises` is what a rule makes of the program, however it ends: a sequence of edits of its
own instruction (`Program.Edits`). If it passes, a division has become a plain one, and what was
converted has the element type it was converted to (`Matched`). Together with `Obeys`, which says
the same rules' verdicts and types, this is all that is needed of a rule.

Most rules convert nothing; for them the edits are read off from what they obey
(`revises_of_quiet`). The others insert their conversions first and point their instruction at
them in the end, and are followed step by step: `Drafted` says of the program in between what the
edits would be if the instruction were pointed at once (`convert_drafted`, `coerce_drafted`).
-/

namespace TensorKernel

/-- Whether the rule of an instruction may convert its operands. -/
def Instr.converts : Instr → Bool
  | binary _ _ _ | ternary _ _ _ _ | localStore _ _ | globalStore _ _ | atomic _ _ _ => true
  | _ => false

/-- **What a rule has converted has the element type it was converted to.** -/
def Matched (τ : TypeMap) (u : StmtId) : Instr → Prop
  | .ternary _ _ onTrue onFalse =>
    (τ onTrue).elem = (τ u).elem ∧ (τ onFalse).elem = (τ u).elem
  | .localStore _ value | .globalStore _ value | .atomic _ _ value =>
    (τ value).elem = (τ u).elem
  | _ => True

/-- Only an instruction whose rule may convert is ever pointed elsewhere. -/
theorem Redirected.eq_of_converts {R : StmtId → StmtId → Prop} {i j : Instr}
    (h : Redirected R i j) (hi : i.converts = false) : j = i := by
  cases h with
  | same => rfl
  | _ => cases hi

/-- A rule that may not convert counts no conversion, and warns of none. -/
theorem quiet_of_not_converts {ctx : CheckContext} {isConst : StmtId → Bool} {τ : TypeMap}
    {u : StmtId} {i : Instr} (hi : i.converts = false) :
    (ruling ctx isConst τ u i).casts = 0 ∧ (ruling ctx isConst τ u i).losses = [] := by
  cases i with
  | binary | ternary | localStore | globalStore | atomic => cases hi
  -- no other rule inserts anything or reports anything
  | unary op operand =>
    simp only [ruling, Ruling.unary]
    split <;> exact ⟨rfl, rfl⟩
  | localLoad slot =>
    simp only [ruling, Ruling.localLoad]
    split <;> exact ⟨rfl, rfl⟩
  | globalPtr nodes indices => cases nodes <;> exact ⟨rfl, rfl⟩
  | shuffle lanes => cases lanes <;> exact ⟨rfl, rfl⟩
  | assumeInRange input base low high =>
    simp only [ruling, Ruling.assumeInRange]
    split <;> exact ⟨rfl, rfl⟩
  | argLoad arg =>
    simp only [ruling, Ruling.argLoad]
    repeat' split
    all_goals exact ⟨rfl, rfl⟩
  | argStore arg value =>
    simp only [ruling, Ruling.argStore]
    repeat' split
    all_goals exact ⟨rfl, rfl⟩
  | externalPtr bases indices => cases bases <;> exact ⟨rfl, rfl⟩
  | _ => exact ⟨rfl, rfl⟩

namespace Checker

open Program (Edit Edits Retyped)

variable {excuse : Prop} {ctx : CheckContext} {config : Config} {n : Nat}
  {u d value : StmtId} {start : Program} {s left : CheckState} {i : Instr}
  {elem t : ElementType} {r : Except Fatal Unit}

/-- **What the rule of `u` makes of a program**, apart from types. -/
structure Revises (config : Config) (u : StmtId) (s : CheckState) (r : Except Fatal Unit)
    (left : CheckState) : Prop where
  edits : Edits config u s.program s.program left.program
  /-- No division is left. -/
  plain : r = .ok () → ∀ op lhs rhs, left.program.instrAt u = .binary op lhs rhs →
    op.lowering? config = none
  matched : r = .ok () → u ∉ (s.program.instrAt u).operands →
    Matched left.program.typeAt u (left.program.instrAt u)

theorem Revises.of_error {fatal : Fatal}
    (h : Edits config u s.program s.program left.program) :
    Revises config u s (.error fatal) left where
  edits := h
  plain := by rintro ⟨⟩
  matched := by rintro ⟨⟩

/-- A rule that stops before it has done anything. -/
theorem refuse_bind_revises {α : Type} {error : TypeError} {next : α → Checker Unit} :
    Ends excuse s (stopAt u error >>= next) (Revises config u s) :=
  ends_stopAt_bind.2 (.of_error .refl)

/-! ### Rules that convert nothing -/

/-- A rule that counts no conversion and leaves its instruction as it is has only set types. -/
theorem retyped_of_obeys {signature : Signature} {ruling : Ruling}
    (hs : Ready s.program.size u s.program)
    (h : Obeys signature s.program.size u s ruling r left)
    (hbalance : left.casts + s.program.size = s.casts + left.program.size)
    (hcasts : ruling.casts = 0) (hinstr : left.program.instrAt u = s.program.instrAt u) :
    Retyped s.program.size s.program left.program := by
  have hext := h.progress.moves.extension hs.coherent
  -- what is not counted is not inserted
  have hsize : left.program.size = s.program.size := by
    have hcount := h.progress.casts
    omega
  refine ⟨fun hp => h.progress.moves.coherent hp, fun _ => hext, hsize, funext fun x => ?_, ?_⟩
  · rcases Nat.lt_or_ge x s.program.size with hlt | hge
    · by_cases hxu : x = u
      · rw [hxu, hinstr]
      · exact h.progress.moves.instrAt_eq hs.coherent hlt hxu
    · rw [Program.instrAt_of_size_le hge, Program.instrAt_of_size_le (hsize ▸ hge)]
  · -- from there on there is nothing
    intro x hx
    rw [Program.typeAt, Program.typeAt, Program.stmtAt_of_size_le hx,
      Program.stmtAt_of_size_le (hsize ▸ hx)]

/-- **A rule that converts nothing** only sets types. -/
theorem revises_of_quiet (hs : Ready s.program.size u s.program)
    (ht : excuse ∨ ctx.storage.Answers (s.program.instrAt u).nodes)
    (hquiet : (s.program.instrAt u).converts = false) :
    Ends excuse s (rule ctx u (s.program.instrAt u)) (Revises ctx.config u s) := by
  have hobeys := (rule_obeys hs ht).and ((balanced ctx.config).rule ctx.storage ctx.signature _ s)
  refine hobeys.mono ?_
  rintro r left ⟨h, hbalance⟩
  have hredirected := ((Program.Erases.refl hs.coherent).moves hs.coherent
    h.progress.moves).redirected u hs.lt_size
  -- where nothing is converted, the instruction is pointed where it was
  have hinstr := hredirected.eq_of_converts hquiet
  have hretyped := retyped_of_obeys hs h hbalance (quiet_of_not_converts hquiet).1 hinstr
  refine ⟨.single (.types hretyped), ?_, ?_⟩
  · intro _ op lhs rhs hi
    rw [← hinstr, hi] at hquiet
    cases hquiet
  · intro _ _
    rw [hinstr]
    cases hi : s.program.instrAt u with
    | ternary | localStore | globalStore | atomic => rw [hi] at hquiet; cases hquiet
    | _ => trivial

/-! ### Conversions before the instruction is pointed at them -/

/-- The rule of `u` has come from `start` to `p`, and means to point `u` at what `i` reads. -/
structure Drafted (config : Config) (u : StmtId) (start p : Program) (i : Instr) : Prop where
  coherent : p.Coherent
  lt_start : u < start.size
  size_le : start.size ≤ p.size
  /-- No type was set so far. -/
  types : ∀ x < start.size, p.typeAt x = start.typeAt x
  /-- If it pointed `u` there now, these would be the edits. -/
  edits : Edits config u start start (p.rewrite u i)

theorem Drafted.lt_size {p : Program} (h : Drafted config u start p i) : u < p.size :=
  Nat.lt_of_lt_of_le h.lt_start h.size_le

theorem Ready.drafted (hs : Ready n u s.program) :
    Drafted config u s.program s.program (s.program.instrAt u) where
  coherent := hs.coherent
  lt_start := hs.lt_size
  size_le := Nat.le_refl _
  types _ _ := rfl
  edits := by
    rw [Program.rewrite_instrAt]

/-- The instruction is pointed where it was meant to be pointed. -/
theorem Drafted.lower {op : BinaryOp} {lhs rhs : StmtId} {p : Program}
    (h : Drafted config u start p (.binary op lhs rhs))
    (hop : (op.lowering? config).isSome = true) :
    Drafted config u start p (.binary .div lhs rhs) where
  coherent := h.coherent
  lt_start := h.lt_start
  size_le := h.size_le
  types := h.types
  edits := by
    have hedit := h.edits.tail (.lower (Program.instrAt_rewrite_self h.lt_size) hop)
    rwa [Program.rewrite_rewrite] at hedit

/-- A conversion is inserted for an operand of what `u` is meant to be. -/
theorem Drafted.splice {p : Program} {side : Program.Side} {anchor : StmtId} {j : Instr}
    (h : Drafted config u start p i) (ha : anchor < p.size)
    (hedit : Edit config u start (p.rewrite u i)
      (((p.rewrite u i).splice side anchor d t).rewrite u j)) :
    Drafted config u start (p.splice side anchor d t) j where
  coherent := h.coherent.splice ha
  lt_start := h.lt_start
  size_le := Program.size_splice ▸ Nat.le_succ_of_le h.size_le
  types x hx := by
    rw [Program.typeAt_splice_of_lt (Nat.lt_of_lt_of_le hx h.size_le), h.types x hx]
  edits := by
    have hedits := h.edits.tail hedit
    rwa [Program.rewrite_splice_rewrite h.lt_size] at hedits

/-- What a conversion leaves behind, as far as the rule looks at it again: `e` is what `d` was
brought to, and what had a type has it still. -/
structure Leaves (start p q : Program) (d e : StmtId) : Prop where
  lt_size : e < q.size
  grows : p.size ≤ q.size
  types : ∀ x < p.size, q.typeAt x = p.typeAt x
  same_or_new : e = d ∨ start.size ≤ e

/-- A step that brings `d` to `e` and leaves a draft with `e` in the place of `d`. -/
def Brings (config : Config) (u : StmtId) (start p : Program) (fill : StmtId → Instr) (d : StmtId)
    (r : Except Fatal StmtId) (s : CheckState) : Prop :=
  ∃ e, r = .ok e ∧ Drafted config u start s.program (fill e) ∧ Leaves start p s.program d e

/-- An operand may be left as it is. -/
theorem Drafted.keeps {fill : StmtId → Instr} (h : Drafted config u start s.program (fill d))
    (hd : d < s.program.size) : Brings config u start s.program fill d (.ok d) s :=
  ⟨d, rfl, h, hd, Nat.le_refl _, fun _ _ => rfl, .inl rfl⟩

/-- An operand that is converted is brought to the conversion, wherever that is put. -/
theorem Drafted.brings {fill : StmtId → Instr} {p : Program} {side : Program.Side}
    {anchor : StmtId} (h : Drafted config u start p (fill d)) (ha : anchor < p.size)
    (hedit : Edit config u start (p.rewrite u (fill d))
      (((p.rewrite u (fill d)).splice side anchor d t).rewrite u (fill p.size)))
    (hs : s.program = p.splice side anchor d t) :
    Brings config u start p fill d (.ok p.size) s := by
  refine ⟨p.size, rfl, hs ▸ h.splice ha hedit, ?_⟩
  rw [hs]
  exact
    { lt_size := Program.size_splice ▸ Nat.lt_succ_self _
      grows := Program.size_splice ▸ Nat.le_succ _
      types := fun x hx => Program.typeAt_splice_of_lt hx
      same_or_new := .inr h.size_le }

/-- A draft finds of every operand what the rule finds of it. -/
theorem Drafted.found_eq {p : Program} (h : Drafted config u start p i) :
    start.found (p.rewrite u i) d = (p.typeAt d).elem := by
  unfold Program.found
  split
  · next hlt => rw [← h.types d hlt]
  · rw [Program.typeAt_rewrite]

/-- **Bringing an operand to a type that holds it.** -/
theorem convert_drafted (fill : StmtId → Instr) (h : Drafted config u start s.program (fill d))
    (hswap : ∀ e, Swaps d e (fill d) (fill e)) (hvalue : (fill d).value? = none)
    (hd : d < s.program.size) (helem : (s.program.typeAt d).elem = elem)
    (hholds : ElementType.narrows t elem = false) (hplain : ¬ start.Coerces config u t d) :
    Ends excuse s (convert u d elem t) fun r s' =>
      Brings config u start s.program fill d r s' ∧
        ∀ e, r = .ok e → (s'.program.typeAt e).elem = t := by
  unfold convert
  split
  · next heq =>
    -- the operand has the type already
    refine ⟨h.keeps hd, ?_⟩
    rintro _ ⟨⟩
    exact helem.trans heq
  · rw [ends_of_runOn (runOn_insertCast_eq h.coherent h.lt_size hd)]
    have hi : (s.program.rewrite u (fill d)).instrAt u = fill d :=
      Program.instrAt_rewrite_self h.lt_size
    have hsize : (s.program.rewrite u (fill d)).size = s.program.size := Program.size_rewrite
    -- the conversion stands before `u` and loses nothing
    have hedit : Edit config u start (s.program.rewrite u (fill d))
        (((s.program.rewrite u (fill d)).splice .before u d t).rewrite u
          (fill s.program.size)) := by
      refine .before t (hsize.symm ▸ hd) ?_ ?_ ?_ hplain
      · rw [hi, hsize]
        exact hswap _
      · rw [hi, hvalue]
        rintro ⟨⟩
      · rw [h.found_eq, helem, hholds]
        rintro ⟨⟩
    refine ⟨h.brings h.lt_size hedit rfl, ?_⟩
    rintro _ ⟨⟩
    show ((s.program.splice .before u d t).typeAt s.program.size).elem = t
    rw [Program.typeAt_splice_size]

/-- **Bringing an operand of a division to the class of types that the division computes at.** What
it was brought to is not coerced once more. -/
theorem coerce_drafted {op : BinaryOp} {lhs rhs : StmtId} {accepts : ElementType → Bool}
    (fill : StmtId → Instr) (h : Drafted config u start s.program (fill d))
    (hswap : ∀ e, Swaps d e (fill d) (fill e)) (hvalue : (fill d).value? = none)
    (hi : start.instrAt u = .binary op lhs rhs) (hop : op.lowering? config = some (t, accepts))
    (hside : d = lhs ∨ d = rhs) (hoperands : lhs < start.size ∧ rhs < start.size) :
    Ends excuse s (coerce t accepts d) fun r s' =>
      Brings config u start s.program fill d r s' ∧
        ∀ e, r = .ok e → ∀ t', ¬ start.Coerces config u t' e := by
  have hd : d < start.size := by
    rcases hside with rfl | rfl
    · exact hoperands.1
    · exact hoperands.2
  have hd' : d < s.program.size := Nat.lt_of_lt_of_le hd h.size_le
  unfold coerce
  rw [ends_bind (runOn_elemOf_eq hd')]
  split
  · next haccepts =>
    refine ⟨h.keeps hd', ?_⟩
    rw [h.types d hd] at haccepts
    rintro _ ⟨⟩ t' ⟨op', _, _, _, hi', hop', -, hrefused⟩
    -- the division accepts the operand as it is
    cases hi.symm.trans hi'
    cases hop.symm.trans hop'
    rw [haccepts] at hrefused
    cases hrefused
  · next hnot =>
    rw [ends_of_runOn (runOn_insertCast_eq h.coherent hd' hd')]
    have hiu : (s.program.rewrite u (fill d)).instrAt u = fill d :=
      Program.instrAt_rewrite_self h.lt_size
    have hsize : (s.program.rewrite u (fill d)).size = s.program.size := Program.size_rewrite
    -- the conversion stands behind the operand and takes its place in `u`
    have hedit : Edit config u start (s.program.rewrite u (fill d))
        (((s.program.rewrite u (fill d)).splice .after d d t).rewrite u
          (fill s.program.size)) := by
      refine .after t (hsize.symm ▸ hd') hd ?_ ?_ ⟨op, lhs, rhs, accepts, hi, hop, hside, ?_⟩
      · rw [hiu, hsize]
        exact hswap _
      · rw [hiu]
        exact hvalue
      · rw [← h.types d hd]
        exact Bool.eq_false_iff.2 hnot
    refine ⟨h.brings hd' hedit rfl, ?_⟩
    -- a conversion is none of the operands that the division was given
    rintro _ ⟨⟩ t' ⟨_, _, _, _, hi', -, hside', -⟩
    cases hi.symm.trans hi'
    rcases hside' with heq | heq
    · exact absurd (heq ▸ hoperands.1) (Nat.not_lt.2 h.size_le)
    · exact absurd (heq ▸ hoperands.2) (Nat.not_lt.2 h.size_le)

/-! ### Binary operators and selections -/

/-- **Lowering** leaves a draft of a binary operator that is no division, with operands that are not
coerced any more. -/
theorem lowerOperands_drafted {op : BinaryOp} {lhs rhs : StmtId} (hs : Ready n u s.program)
    (hi : s.program.instrAt u = .binary op lhs rhs) :
    Ends excuse s (lowerOperands config op lhs rhs) fun r s₁ => ∃ op' l r',
      r = .ok (op', l, r') ∧ op'.lowering? config = none ∧
        Drafted config u s.program s₁.program (.binary op' l r') ∧
        (l < s₁.program.size ∧ ∀ t, ¬ s.program.Coerces config u t l) ∧
        r' < s₁.program.size ∧ ∀ t, ¬ s.program.Coerces config u t r' := by
  have hl := hs.grounded u hs.lt_size lhs (hi ▸ List.mem_cons_self)
  have hr := hs.grounded u hs.lt_size rhs
    (hi ▸ List.mem_cons_of_mem _ List.mem_cons_self)
  have hdraft : Drafted config u s.program s.program (.binary op lhs rhs) := hi ▸ hs.drafted
  unfold lowerOperands
  cases hop : op.lowering? config with
  | none =>
    -- only what is lowered coerces
    have hplain : ∀ t d, ¬ s.program.Coerces config u t d := by
      refine fun _ _ => Program.not_coerces_of_plain fun op' _ _ hi' => ?_
      cases hi.symm.trans hi'
      exact hop
    exact ⟨op, lhs, rhs, rfl, hop, hdraft, ⟨hl, fun _ => hplain _ _⟩, hr, fun _ => hplain _ _⟩
  | some lowering =>
    obtain ⟨t, accepts⟩ := lowering
    refine (coerce_drafted (fun e => .binary op e rhs) hdraft (fun _ => .lhs) rfl hi hop (.inl rfl)
      ⟨hl, hr⟩).bind ?_ ?_
    · rintro l s₁ ⟨⟨_, ⟨⟩, hdraft₁, hleft⟩, hplain⟩
      -- the right operand is coerced in the program that coercing the left one made
      refine (coerce_drafted (fun e => .binary op l e) hdraft₁ (fun _ => .rhs) rfl hi hop
        (.inr rfl) ⟨hl, hr⟩).bind ?_ ?_
      · rintro r' s₂ ⟨⟨_, ⟨⟩, hdraft₂, hright⟩, hplain'⟩
        exact ⟨.div, l, r', rfl, rfl, hdraft₂.lower (hop ▸ rfl),
          ⟨Nat.lt_of_lt_of_le hleft.lt_size hright.grows, hplain l rfl⟩, hright.lt_size,
          hplain' r' rfl⟩
      · rintro _ _ ⟨⟨_, ⟨⟩, _⟩, _⟩
    · rintro _ _ ⟨⟨_, ⟨⟩, _⟩, _⟩

/-- **Promotion converts only to types that hold the operands**, and then the operator is pointed
at what came of them. -/
theorem combine_revises {s₀ : CheckState} {op : BinaryOp} {l r' : StmtId}
    (hop : op.lowering? config = none)
    (h : Drafted config u s₀.program s.program (.binary op l r')) (hl : l < s.program.size)
    (hr : r' < s.program.size) (hplain : ∀ t, ¬ s₀.program.Coerces config u t l)
    (hplain' : ∀ t, ¬ s₀.program.Coerces config u t r') :
    Ends excuse s (combine u op l r') (Revises config u s₀) := by
  unfold combine
  rw [ends_bind (runOn_elemOf_eq hl), ends_bind (runOn_elemOf_eq hr)]
  refine (convert_drafted (fun e => .binary op e r') h (fun _ => .lhs) rfl hl rfl
    (ElementType.narrows_promote_left _ _) (hplain _)).bind ?_ ?_
  · rintro l' s₁ ⟨⟨_, ⟨⟩, h₁, hleft⟩, -⟩
    -- converting the left operand left the right one its type
    have helem := congrArg VectorType.elem (hleft.types r' hr)
    refine (convert_drafted (fun e => .binary op l' e) h₁ (fun _ => .rhs) rfl
      (Nat.lt_of_lt_of_le hr hleft.grows) helem (ElementType.narrows_promote_right _ _)
      (hplain' _)).bind ?_ ?_
    · rintro r'' s₂ ⟨⟨_, ⟨⟩, h₂, hright⟩, -⟩
      have hsize : (s₂.program.rewrite u (.binary op l' r'')).size = s₂.program.size :=
        Program.size_rewrite
      have hl' : l' < s₂.program.size := Nat.lt_of_lt_of_le hleft.lt_size hright.grows
      rw [ends_bind (runOn_setInstr_eq h₂.lt_size),
        ends_bind (runOn_typeOf_eq (hsize.symm ▸ hl')),
        ends_bind (runOn_typeOf_eq (hsize.symm ▸ hright.lt_size))]
      dsimp only
      -- both refusals leave the program as it is now
      split
      · rw [ends_stopAt_bind]
        exact .of_error h₂.edits
      split
      · rw [ends_stopAt_bind]
        exact .of_error h₂.edits
      rw [ends_of_runOn (runOn_setType_eq (hsize.symm ▸ h₂.lt_size))]
      have hu : ((s₂.program.rewrite u (.binary op l' r'')).retype u
          (op.resultType ((s₂.program.rewrite u (.binary op l' r'')).typeAt l'))).instrAt u =
            .binary op l' r'' := by
        rw [Program.instrAt_retype, Program.instrAt_rewrite_self h₂.lt_size]
      refine ⟨h₂.edits.tail (.types (Program.retyped_retype h₂.lt_start)), ?_, ?_⟩
      · intro _ op₁ lhs rhs hi
        cases hu.symm.trans hi
        exact hop
      · intro _ _
        rw [hu]
        trivial
    · rintro _ _ ⟨⟨_, ⟨⟩, _⟩, _⟩
  · rintro _ _ ⟨⟨_, ⟨⟩, _⟩, _⟩

theorem checkBinary_revises {op : BinaryOp} {lhs rhs : StmtId} (hs : Ready n u s.program)
    (hi : s.program.instrAt u = .binary op lhs rhs) :
    Ends excuse s (checkBinary config u op lhs rhs) (Revises config u s) := by
  have hl := hs.grounded u hs.lt_size lhs (hi ▸ List.mem_cons_self)
  have hr := hs.grounded u hs.lt_size rhs
    (hi ▸ List.mem_cons_of_mem _ List.mem_cons_self)
  -- once it is not refused, an operator is lowered and then combined
  have hrest : Ends excuse s (lowerOperands config op lhs rhs >>= fun lowered =>
      combine u lowered.1 lowered.2.1 lowered.2.2) (Revises config u s) := by
    refine (lowerOperands_drafted hs hi).bind ?_ ?_
    · rintro ⟨op', l, r'⟩ s₁ ⟨_, _, _, ⟨⟩, hop, hdraft, ⟨hl, hplain⟩, hr, hplain'⟩
      exact combine_revises hop hdraft hl hr hplain hplain'
    · rintro _ _ ⟨_, _, _, ⟨⟩, _⟩
  rw [checkBinary_eq, ends_bind (runOn_elemOf_eq hl)]
  dsimp only
  split
  · rw [ends_bind (runOn_elemOf_eq hr)]
    split
    · exact refuse_bind_revises
    · exact hrest
  · exact hrest

theorem checkTernary_revises {op : TernaryOp} {cond onTrue onFalse : StmtId}
    (hs : Ready n u s.program) (hi : s.program.instrAt u = .ternary op cond onTrue onFalse) :
    Ends excuse s (checkTernary u op cond onTrue onFalse) (Revises config u s) := by
  have hc : cond < s.program.size := hs.grounded u hs.lt_size cond
    (hi ▸ List.mem_cons_self)
  have ht : onTrue < s.program.size := hs.grounded u hs.lt_size onTrue
    (hi ▸ List.mem_cons_of_mem _ List.mem_cons_self)
  have hf : onFalse < s.program.size := hs.grounded u hs.lt_size onFalse
    (hi ▸ List.mem_cons_of_mem _ (List.mem_cons_of_mem _ List.mem_cons_self))
  unfold checkTernary
  split
  · exact refuse_bind_revises
  next hop =>
  have hselect : op = .select := by
    cases op with
    | select => rfl
    | ifte => exact absurd rfl hop
  subst hselect
  show Ends excuse s (typeOf cond >>= _) _
  rw [ends_bind (runOn_typeOf_eq hc), ends_bind (runOn_typeOf_eq ht),
    ends_bind (runOn_typeOf_eq hf)]
  dsimp only
  split
  · exact refuse_bind_revises
  split
  · exact refuse_bind_revises
  have hdraft : Drafted config u s.program s.program (.ternary .select cond onTrue onFalse) :=
    hi ▸ hs.drafted
  have hplain : ∀ t d, ¬ s.program.Coerces config u t d := fun _ _ =>
    Program.not_coerces_of_plain fun _ _ _ hi' => nomatch hi.symm.trans hi'
  -- the condition stays, and the branches are brought to their common type in turn
  refine (convert_drafted (fun e => .ternary .select cond e onFalse) hdraft (fun _ => .onTrue) rfl
    ht rfl (ElementType.narrows_promote_left _ _) (hplain _ _)).bind ?_ ?_
  · rintro e s₁ ⟨⟨_, ⟨⟩, h₁, htrue⟩, he⟩
    have helem := congrArg VectorType.elem (htrue.types onFalse hf)
    refine (convert_drafted (fun e' => .ternary .select cond e e') h₁ (fun _ => .onFalse) rfl
      (Nat.lt_of_lt_of_le hf htrue.grows) helem (ElementType.narrows_promote_right _ _)
      (hplain _ _)).bind ?_ ?_
    · rintro e' s₂ ⟨⟨_, ⟨⟩, h₂, hfalse⟩, he'⟩
      have hsize : (s₂.program.rewrite u (.ternary .select cond e e')).size = s₂.program.size :=
        Program.size_rewrite
      have hu : u < (s₂.program.rewrite u (.ternary .select cond e e')).size :=
        hsize.symm ▸ h₂.lt_size
      rw [ends_bind (runOn_setInstr_eq h₂.lt_size), ends_of_runOn (runOn_setType_eq hu)]
      refine ⟨h₂.edits.tail (.types (Program.retyped_retype h₂.lt_start)), ?_, ?_⟩
      · intro _ op₁ lhs rhs hbinary
        rw [Program.instrAt_retype, Program.instrAt_rewrite_self h₂.lt_size] at hbinary
        cases hbinary
      · -- neither branch is the selection, so both still have the type they were brought to
        intro _ hself
        rw [hi] at hself
        have hne : ∀ {d e}, d ∈ (Instr.ternary .select cond onTrue onFalse).operands →
            (e = d ∨ s.program.size ≤ e) → e ≠ u := by
          rintro d e hd (rfl | hge) heu
          · exact hself (heu ▸ hd)
          · exact absurd h₂.lt_start (Nat.not_lt.2 (heu ▸ hge))
        have hne₁ : e ≠ u := hne (by simp [Instr.operands]) htrue.same_or_new
        have hne₂ : e' ≠ u := hne (by simp [Instr.operands]) hfalse.same_or_new
        have htype := congrArg VectorType.elem (hfalse.types e htrue.lt_size)
        rw [Program.instrAt_retype, Program.instrAt_rewrite_self h₂.lt_size]
        simp only [Matched]
        rw [Program.typeAt_retype hu, Program.typeAt_retype hu, Program.typeAt_retype hu,
          if_neg hne₁, if_neg hne₂, if_pos rfl, Program.typeAt_rewrite, Program.typeAt_rewrite]
        exact ⟨htype.trans (he _ rfl), he' _ rfl⟩
    · rintro _ _ ⟨⟨_, ⟨⟩, _⟩, _⟩
  · rintro _ _ ⟨⟨_, ⟨⟩, _⟩, _⟩

/-! ### Stores and atomic operations -/

/-- A report leaves the program alone. -/
theorem reportLoss_program {loss : PrecisionLoss} (hu : u < s.program.size) :
    Ends excuse s (reportLoss config u loss) fun _ s' => s'.program = s.program := by
  unfold reportLoss
  split
  · exact rfl
  · rw [ends_of_runOn (runOn_warn_eq hu)]

/-- **The value of `u` is converted** to `t`, right before `u`, and `u` is pointed at the
conversion. Before that, at most types were set since `start`. -/
theorem edit_value (make : StmtId → Instr) {p : Program} (hretyped : Retyped start.size start p)
    (hi : start.instrAt u = make value) (hswap : ∀ e, Swaps value e (make value) (make e))
    (hmake : ∀ e, (make e).value? = some e) (hvalue : value < start.size)
    (hloss : ElementType.narrows t (start.typeAt value).elem = true →
      ∃ access, (start.instrAt u).loss start.typeAt u =
        some ⟨access, t, (start.typeAt value).elem⟩) :
    Edits config u start start ((p.splice .before u value t).rewrite u (make p.size)) := by
  have hiu : p.instrAt u = make value := (congrFun hretyped.instr_eq u).trans hi
  have hfound : start.found p value = (start.typeAt value).elem := if_pos hvalue
  have hsize := hretyped.size_eq
  -- what writes a value is no operator
  have hplain : ¬ start.Coerces config u t value := by
    refine Program.not_coerces_of_plain fun op lhs rhs hbinary => ?_
    have hvalue := hmake value
    rw [← hi, hbinary] at hvalue
    cases hvalue
  refine .tail (.single (.types hretyped)) (.before t (hsize.symm ▸ hvalue) ?_ ?_ ?_ hplain)
  · rw [hiu]
    exact hswap _
  · exact fun _ => hsize
  · intro hnarrows
    rw [hfound] at hnarrows
    obtain ⟨access, hloss⟩ := hloss hnarrows
    exact ⟨access, by rw [hfound]; exact hloss, by rw [hiu, hmake]⟩

/-- What is to be shown of an instruction that writes a value. -/
theorem revises_of_value {e : StmtId} (hedits : Edits config u s.program s.program left.program)
    (hi : left.program.instrAt u = i) (hvalue : i.value? = some e)
    (hmatched : u ∉ (s.program.instrAt u).operands → Matched left.program.typeAt u i) :
    Revises config u s r left where
  edits := hedits
  plain _ op lhs rhs hbinary := by
    rw [← hi, hbinary] at hvalue
    cases hvalue
  matched _ hself := by
    rw [hi]
    exact hmatched hself

/-- **A store** to a place that has a type. -/
theorem store_revises (make : StmtId → Instr) {access : Access} {place : VectorType}
    (hs : Ready n u s.program) (hi : s.program.instrAt u = make value)
    (hmem : value ∈ (make value).typedOperands)
    (hswap : ∀ e, Swaps value e (make value) (make e))
    (hmake : ∀ e, (make e).value? = some e)
    (hmatched : ∀ τ e, (τ e).elem = (τ u).elem → Matched τ u (make e))
    (hloss : value ≠ u → ElementType.narrows place.elem (s.program.typeAt value).elem = true →
      (s.program.instrAt u).loss s.program.typeAt u =
        some ⟨access, place.elem, (s.program.typeAt value).elem⟩) :
    Ends excuse s (do
      setType u place
      let valueElem ← elemOf value
      if valueElem ≠ place.elem then
        let cast ← insertCast .before u value place.elem
        setInstr u (make cast)
      if ElementType.narrows place.elem valueElem then
        reportLoss config u ⟨access, place.elem, valueElem⟩) (Revises config u s) := by
  have hvalue := hs.grounded u hs.lt_size value (hi ▸ hmem)
  have hsize : (s.program.retype u place).size = s.program.size := Program.size_retype
  have hu : u < (s.program.retype u place).size := hsize.symm ▸ hs.lt_size
  have htype : (s.program.retype u place).typeAt u = place := by
    rw [Program.typeAt_retype hs.lt_size, if_pos rfl]
  have hretyped := Program.retyped_retype (p := s.program) (t := place) hs.lt_size
  -- the report comes last and changes nothing
  have hreport : ∀ {s₁ : CheckState} {elem : ElementType} (e : StmtId), u < s₁.program.size →
      Edits config u s.program s.program s₁.program → s₁.program.instrAt u = make e →
      (s₁.program.typeAt e).elem = (s₁.program.typeAt u).elem →
      Ends excuse s₁ (if ElementType.narrows place.elem elem then
        reportLoss config u ⟨access, place.elem, elem⟩ else pure ()) (Revises config u s) := by
    intro s₁ elem e hu₁ hedits he helem
    split
    · refine (reportLoss_program hu₁).mono fun r s₂ heq => ?_
      exact revises_of_value (heq ▸ hedits) (heq ▸ he) (hmake e)
        fun _ => hmatched _ e (heq ▸ helem)
    · exact revises_of_value hedits he (hmake e) fun _ => hmatched _ e helem
  rw [ends_bind (runOn_setType_eq hs.lt_size), ends_bind (runOn_elemOf_eq (hsize.symm ▸ hvalue))]
  dsimp only
  split
  · next hne =>
    -- a store that is its own value has the type of its place already
    have hvu : value ≠ u := by
      rintro rfl
      rw [htype] at hne
      exact hne rfl
    have hcast := @runOn_insertCast_eq { s with program := s.program.retype u place }
      .before u value place.elem hs.coherent.retype hu (hsize.symm ▸ hvalue)
    have hu₁ : u < ((s.program.retype u place).splice .before u value place.elem).size :=
      Program.size_splice ▸ Nat.lt_succ_of_lt hu
    rw [ends_bind hcast, ends_bind (runOn_setInstr_eq hu₁)]
    refine hreport (s.program.retype u place).size (Program.size_rewrite.symm ▸ hu₁) ?_ ?_ ?_
    · exact edit_value make hretyped hi hswap hmake hvalue
        fun hnarrows => ⟨access, hloss hvu hnarrows⟩
    · exact Program.instrAt_rewrite_self hu₁
    · rw [Program.typeAt_rewrite, Program.typeAt_rewrite, Program.typeAt_splice_size,
        Program.typeAt_splice_of_lt hu, htype]
  · next heq =>
    refine hreport value hu (.single (.types hretyped)) ?_ ?_
    · rw [Program.instrAt_retype, hi]
    · rw [not_not.1 heq, htype]

theorem checkLocalStore_revises {slot : StmtId} (hs : Ready n u s.program)
    (hi : s.program.instrAt u = .localStore slot value) :
    Ends excuse s (checkLocalStore config u slot value) (Revises config u s) := by
  have hslot := hs.grounded u hs.lt_size slot (hi ▸ List.mem_cons_self)
  have hvalue := hs.grounded u hs.lt_size value
    (hi ▸ List.mem_cons_of_mem _ List.mem_cons_self)
  unfold checkLocalStore
  rw [ends_bind (runOn_typeOf_eq hslot)]
  split
  · -- an untyped slot takes over the type of the value, and so does the store
    rw [ends_bind (runOn_typeOf_eq hvalue), ends_bind (runOn_setType_eq hslot)]
    have hu : u < (s.program.retype slot (s.program.typeAt value)).size :=
      Program.size_retype.symm ▸ hs.lt_size
    rw [ends_of_runOn (runOn_setType_eq hu)]
    have hiu : ((s.program.retype slot (s.program.typeAt value)).retype u
        (s.program.typeAt value)).instrAt u = .localStore slot value := by
      rw [Program.instrAt_retype, Program.instrAt_retype, hi]
    refine ⟨.tail (.single (.types (Program.retyped_retype hslot)))
      (.types (Program.retyped_retype hs.lt_size)), ?_, ?_⟩
    · intro _ op lhs rhs hbinary
      cases hiu.symm.trans hbinary
    · intro _ _
      rw [hiu]
      simp only [Matched]
      rw [Program.typeAt_retype hu, Program.typeAt_retype hu, Program.typeAt_retype hslot,
        if_pos rfl]
      split
      · rfl
      · split <;> rfl
  · next hknown =>
    refine store_revises (.localStore slot) hs hi (List.mem_cons_of_mem _ List.mem_cons_self)
      (fun _ => .localStore) (fun _ => rfl) (fun _ _ h => h) ?_
    intro hvu hnarrows
    rw [hi]
    exact if_pos ⟨Bool.eq_false_iff.2 hknown, hvu, hnarrows⟩

theorem checkGlobalStore_revises {ptr : StmtId} (hs : Ready n u s.program)
    (hi : s.program.instrAt u = .globalStore ptr value) :
    Ends excuse s (checkGlobalStore config u ptr value) (Revises config u s) := by
  have hptr := hs.grounded u hs.lt_size ptr (hi ▸ List.mem_cons_self)
  unfold checkGlobalStore
  rw [ends_bind (runOn_typeOf_eq hptr)]
  refine store_revises (.globalStore ptr) hs hi (List.mem_cons_of_mem _ List.mem_cons_self)
    (fun _ => .globalStore) (fun _ => rfl) (fun _ _ h => h) ?_
  intro hvu hnarrows
  rw [hi]
  exact if_pos ⟨hvu, hnarrows⟩

theorem checkAtomic_revises {op : AtomicOp} {dest : StmtId} (hs : Ready n u s.program)
    (hi : s.program.instrAt u = .atomic op dest value) :
    Ends excuse s (checkAtomic config u op dest value) (Revises config u s) := by
  have hdest := hs.grounded u hs.lt_size dest (hi ▸ List.mem_cons_self)
  have hvalue := hs.grounded u hs.lt_size value
    (hi ▸ List.mem_cons_of_mem _ List.mem_cons_self)
  unfold checkAtomic requireScalar
  rw [bind_assoc, ends_bind (runOn_typeOf_eq hs.lt_size)]
  dsimp only
  split
  · exact refuse_bind_revises
  -- both element types are read before the operation is typed
  show Ends excuse s (elemOf dest >>= _) _
  rw [ends_bind (runOn_elemOf_eq hdest), ends_bind (runOn_elemOf_eq hvalue),
    ends_bind (runOn_setType_eq hs.lt_size)]
  generalize hplace : (VectorType.scalar (s.program.typeAt dest).elem) = place
  have hretyped := Program.retyped_retype (p := s.program) (t := place) hs.lt_size
  have hi₁ : (s.program.retype u place).instrAt u = .atomic op dest value :=
    Program.instrAt_retype.trans hi
  have hsize : (s.program.retype u place).size = s.program.size := Program.size_retype
  have hu : u < (s.program.retype u place).size := hsize.symm ▸ hs.lt_size
  have htype : ((s.program.retype u place).typeAt u).elem = (s.program.typeAt dest).elem := by
    rw [Program.typeAt_retype hs.lt_size, if_pos rfl, ← hplace, VectorType.scalar_elem]
  split
  · next hne =>
    refine Ends.bind (reportLoss_program (s := { s with program := s.program.retype u place })
      hu) ?_ ?_
    · rintro ⟨⟩ s₂ heq
      change s₂.program = s.program.retype u place at heq
      have hu₂ : u < s₂.program.size := heq ▸ hu
      have hvalue₂ : value < s₂.program.size := heq ▸ hsize.symm ▸ hvalue
      have hp₂ : s₂.program.Coherent := heq ▸ hs.coherent.retype
      have hcast := @runOn_insertCast_eq s₂ .before u value (s.program.typeAt dest).elem
        hp₂ hu₂ hvalue₂
      rw [ends_bind hcast, ends_of_runOn (runOn_setInstr_eq (Program.size_splice ▸
        Nat.lt_succ_of_lt hu₂))]
      rw [heq]
      have hu₃ : u < ((s.program.retype u place).splice .before u value
          (s.program.typeAt dest).elem).size := Program.size_splice ▸ Nat.lt_succ_of_lt hu
      refine revises_of_value (i := .atomic op dest (s.program.retype u place).size) ?_ ?_ rfl ?_
      · refine edit_value (.atomic op dest) hretyped hi (fun _ => .atomic) (fun _ => rfl) hvalue ?_
        intro _
        rw [hi]
        exact ⟨.atomic, if_pos hne⟩
      · exact Program.instrAt_rewrite_self hu₃
      · intro _
        simp only [Matched]
        rw [Program.typeAt_rewrite, Program.typeAt_rewrite, Program.typeAt_splice_size,
          Program.typeAt_splice_of_lt hu, htype]
    · -- denied, and so only typed
      rintro fatal s₂ heq
      change s₂.program = s.program.retype u place at heq
      refine .of_error ?_
      rw [heq]
      exact .single (.types hretyped)
  · next heq =>
    -- nothing is converted: the value has the element type of the place
    refine revises_of_value (.single (.types hretyped)) hi₁ rfl ?_
    intro hself
    have hvu : value ≠ u := by
      rintro rfl
      exact hself (hi ▸ by simp [Instr.operands])
    simp only [Matched]
    rw [htype, Program.typeAt_retype hs.lt_size, if_neg hvu, not_not.1 heq]

/-! ### Every rule -/

/-- **Every typing rule is a sequence of edits.** -/
theorem rule_revises (hs : Ready n u s.program)
    (ht : excuse ∨ ctx.storage.Answers (s.program.instrAt u).nodes) :
    Ends excuse s (rule ctx u (s.program.instrAt u)) (Revises ctx.config u s) := by
  have hready : Ready s.program.size u s.program :=
    ⟨hs.coherent, hs.grounded, Nat.le_refl _, hs.lt_size⟩
  cases hi : s.program.instrAt u with
  | localStore slot value => exact checkLocalStore_revises hs hi
  | globalStore ptr value => exact checkGlobalStore_revises hs hi
  | atomic op dest value => exact checkAtomic_revises hs hi
  | binary op lhs rhs => exact checkBinary_revises hs hi
  | ternary op cond onTrue onFalse => exact checkTernary_revises hs hi
  -- the other kinds convert nothing
  | _ =>
    rw [← hi]
    exact revises_of_quiet hready ht (hi ▸ rfl)

end Checker

end TensorKernel
