import TensorKernel.Proofs.Inference

/-!
# Types that change late

A rule compares the types that it finds, and the types may change afterwards. There are two ways
for that, and no others: a loop types a constant that bounds it (`LateBound`), and a store types a
slot that was untyped (`LateTyped`). Whatever comes before an instruction in program order and
changes in neither way keeps the type it had when the instruction was checked (`types_later`).

The types are those of the inference, and what comes later is a list of instructions, so both
notions are about the program as it was given.
-/

namespace TensorKernel

variable {ctx : CheckContext} {p : Program} {i j : Inference} {back : List StmtId}
  {u d x : StmtId} {τ : TypeMap} {t : VectorType}

/-! ### What a rule types -/

/-- **What a rule types**: nothing, or its own instruction; a store may type its slot as well, and a
loop types the constants that bound it. -/
theorem sets_cases {isConst : StmtId → Bool} {instr : Instr} :
    (ruling ctx isConst τ u instr).sets = [] ∨
      (∃ t, (ruling ctx isConst τ u instr).sets = [(u, t)]) ∨
      (∃ slot value, instr = .localStore slot value ∧ (τ slot).isUnknown = true ∧
        (ruling ctx isConst τ u instr).sets = [(slot, τ value), (u, τ value)]) ∨
      ∃ first last body, instr = .rangeFor first last body ∧
        (ruling ctx isConst τ u instr).sets =
          ([first, last].filter isConst).map fun bound => (bound, .scalar .i32) := by
  cases instr with
  -- control instructions set nothing, and these set their own type whatever they find
  | alloca | const | branch | structFor | whileLoop | offloaded => exact .inl rfl
  | globalLoad | storageOp | loopIndex | childPtr | globalStore => exact .inr (.inl ⟨_, rfl⟩)
  | rangeFor first last body => exact .inr (.inr (.inr ⟨first, last, body, rfl, rfl⟩))
  | localStore slot value =>
    simp only [ruling, Ruling.localStore]
    split
    · next hunknown => exact .inr (.inr (.inl ⟨slot, value, rfl, hunknown, rfl⟩))
    · -- a typed slot keeps its type
      exact .inr (.inl ⟨_, rfl⟩)
  | localLoad slot =>
    -- here and below, a rule that refuses its instruction sets nothing
    simp only [ruling, Ruling.localLoad]
    split
    · exact .inl rfl
    · exact .inr (.inl ⟨_, rfl⟩)
  | atomic op dest value =>
    simp only [ruling, Ruling.atomic]
    split
    · exact .inl rfl
    · split <;> exact .inr (.inl ⟨_, rfl⟩)
  | globalPtr nodes indices =>
    cases nodes with
    | nil => exact .inl rfl
    | cons first rest => exact .inr (.inl ⟨_, rfl⟩)
  | unary op operand =>
    simp only [ruling, Ruling.unary]
    split
    · exact .inl rfl
    · exact .inr (.inl ⟨_, rfl⟩)
  | binary op lhs rhs =>
    simp only [ruling, Ruling.binary]
    -- two refusals and the result, and alike for the rules below
    repeat' split
    · exact .inl rfl
    · exact .inl rfl
    · exact .inl rfl
    · exact .inr (.inl ⟨_, rfl⟩)
  | ternary op cond onTrue onFalse =>
    simp only [ruling, Ruling.ternary]
    repeat' split
    · exact .inl rfl
    · exact .inl rfl
    · exact .inl rfl
    · exact .inr (.inl ⟨_, rfl⟩)
  | shuffle lanes =>
    cases lanes with
    | nil => exact .inl rfl
    | cons first lanes => exact .inr (.inl ⟨_, rfl⟩)
  | assumeInRange input base low high =>
    simp only [ruling, Ruling.assumeInRange]
    split
    · exact .inl rfl
    · exact .inr (.inl ⟨_, rfl⟩)
  | argLoad arg =>
    simp only [ruling, Ruling.argLoad]
    repeat' split
    · exact .inl rfl
    · exact .inl rfl
    · exact .inr (.inl ⟨_, rfl⟩)
  | argStore arg value =>
    simp only [ruling, Ruling.argStore]
    repeat' split
    · exact .inl rfl
    · exact .inl rfl
    · exact .inl rfl
    · exact .inr (.inl ⟨_, rfl⟩)
  | externalPtr bases indices =>
    cases bases with
    | nil => exact .inl rfl
    | cons first rest => exact .inr (.inl ⟨_, rfl⟩)

/-- **A rule types its own instruction**, an untyped slot or a constant that bounds a loop. -/
theorem mem_sets {isConst : StmtId → Bool} {instr : Instr}
    (h : (x, t) ∈ (ruling ctx isConst τ u instr).sets) :
    x = u ∨ (∃ value, instr = .localStore x value ∧ (τ x).isUnknown = true) ∨
      ∃ first last body, instr = .rangeFor first last body ∧ (x = first ∨ x = last) ∧
        isConst x = true ∧ t = .scalar .i32 := by
  have hcases := @sets_cases ctx u τ isConst instr
  rcases hcases with hnone | ⟨t', hown⟩ | ⟨slot, value, hi, hunknown, hstore⟩ |
    ⟨first, last, body, hi, hbounds⟩
  · rw [hnone] at h
    cases h
  · rw [hown] at h
    cases List.mem_singleton.1 h
    exact .inl rfl
  · -- the slot takes over the type of the value, and then the store has it
    rw [hstore] at h
    rcases List.mem_cons.1 h with heq | h
    · cases heq
      exact .inr (.inl ⟨value, hi, hunknown⟩)
    · cases List.mem_singleton.1 h
      exact .inl rfl
  · -- of the two bounds those are typed that are constants
    rw [hbounds] at h
    obtain ⟨y, hy, heq⟩ := List.mem_map.1 h
    cases heq
    obtain ⟨hy, hconst⟩ := List.mem_filter.1 hy
    simp only [List.mem_cons, List.not_mem_nil, or_false] at hy
    exact .inr (.inr ⟨first, last, body, hi, hy, hconst, rfl⟩)

/-- A type is as it was, or it is one of those that were set. -/
theorem Ruling.typed_cases (τ : TypeMap) (sets : List (StmtId × VectorType)) (x : StmtId) :
    Ruling.typed τ sets x = τ x ∨ (x, Ruling.typed τ sets x) ∈ sets := by
  -- on the list of settings, of which the last one for `x` counts
  induction sets generalizing τ with
  | nil => exact .inl rfl
  | cons set sets ih =>
    obtain ⟨y, t⟩ := set
    rw [Ruling.typed]
    rcases ih (Function.update τ y t) with hsame | hmem
    · rw [hsame, Function.update_apply]
      split
      · next hxy =>
        subst hxy
        exact .inr List.mem_cons_self
      · exact .inl rfl
    · exact .inr (List.mem_cons_of_mem _ hmem)

/-! ### What changes later -/

namespace Program

/-- A constant that bounds one of the loops in `back` and is no loop index yet. -/
def LateBound (p : Program) (τ : TypeMap) (back : List StmtId) (d : StmtId) : Prop :=
  (p.instrAt d).isConst = true ∧ τ d ≠ .scalar .i32 ∧
    ∃ loop ∈ back, ∃ first last body,
      p.instrAt loop = .rangeFor first last body ∧ (d = first ∨ d = last)

/-- An untyped slot to which one of the stores in `back` stores. -/
def LateTyped (p : Program) (τ : TypeMap) (back : List StmtId) (d : StmtId) : Prop :=
  (τ d).isUnknown = true ∧ ∃ store ∈ back, ∃ value, p.instrAt store = .localStore d value

/-- What `back` may give another type. -/
def Late (p : Program) (τ : TypeMap) (back : List StmtId) (d : StmtId) : Prop :=
  p.LateBound τ back d ∨ p.LateTyped τ back d

theorem LateBound.cons {v : StmtId} {τ τ' : TypeMap} (hτ : τ' d = τ d)
    (h : p.LateBound τ' back d) : p.LateBound τ (v :: back) d := by
  obtain ⟨hconst, hne, loop, hloop, hbounds⟩ := h
  exact ⟨hconst, hτ ▸ hne, loop, List.mem_cons_of_mem _ hloop, hbounds⟩

theorem LateTyped.cons {v : StmtId} {τ τ' : TypeMap} (hτ : τ' d = τ d)
    (h : p.LateTyped τ' back d) : p.LateTyped τ (v :: back) d := by
  obtain ⟨hunknown, store, hstore, hslot⟩ := h
  exact ⟨hτ ▸ hunknown, store, List.mem_cons_of_mem _ hstore, hslot⟩

/-- **What a type is later.** An instruction that is not checked again keeps its type, unless it is
an untyped slot or a constant that becomes a loop index. -/
theorem types_later (hrun : Inference.run (p.rulings ctx) back i = (.ok (), j)) (hd : d ∉ back) :
    j.types d = i.types d ∨ p.LateTyped i.types back d ∨
      p.LateBound i.types back d ∧ j.types d = .scalar .i32 := by
  -- on what is still to be checked, from the types known so far
  induction back generalizing i with
  | nil =>
    rw [Inference.run, Prod.mk.injEq] at hrun
    rw [hrun.2]
    exact .inl rfl
  | cons v back ih =>
    rw [Inference.run] at hrun
    cases hv : (p.rulings ctx i.types v).verdict v with
    | error fatal => rw [hv] at hrun; cases hrun
    | ok =>
      rw [hv] at hrun
      obtain ⟨hdv, hdback⟩ := not_or.1 (mt List.mem_cons.2 hd)
      -- what comes after `v` starts from the types that `v` leaves
      have hlater := ih hrun hdback
      rcases Ruling.typed_cases i.types (p.rulings ctx i.types v).sets d with hsame | hmem
      · -- `v` leaves the type alone
        have hτ : (i.follow v (p.rulings ctx i.types v)).types d = i.types d := hsame
        rcases hlater with heq | hlate | ⟨hlate, heq⟩
        · exact .inl (heq.trans hτ)
        · exact .inr (.inl (hlate.cons hτ))
        · exact .inr (.inr ⟨hlate.cons hτ, heq⟩)
      · rcases mem_sets hmem with rfl | ⟨value, hstore, hunknown⟩ |
          ⟨first, last, body, hloop, hbound, hconst, hindex⟩
        · exact absurd rfl hdv
        · exact .inr (.inl ⟨hunknown, v, List.mem_cons_self, value, hstore⟩)
        · -- `v` makes a loop index of it, and nothing changes a loop index
          have hτ : (i.follow v (p.rulings ctx i.types v)).types d = .scalar .i32 := hindex
          have hj : j.types d = .scalar .i32 := by
            rcases hlater with heq | ⟨hunknown, -⟩ | ⟨⟨-, hne, -⟩, -⟩
            · exact heq.trans hτ
            · rw [hτ] at hunknown
              cases hunknown
            · exact absurd hτ hne
          by_cases hi : i.types d = .scalar .i32
          · exact .inl (hj.trans hi.symm)
          · exact .inr (.inr ⟨⟨hconst, hi, v, List.mem_cons_self, first, last, body, hloop,
              hbound⟩, hj⟩)

end Program

end TensorKernel
