import TensorKernel.Proofs.Late
import TensorKernel.Proofs.Revision

/-!
# Rules at rest

A ruling is idle if it finds nothing wrong, converts nothing, warns of nothing and sets only types
that are set already (`Ruling.Idle`). Two facts about idle rulings make a check that is run again
leave everything as it is:

* `idle_of_rule` — right after a rule has passed, the ruling of what it has made of its instruction
  is idle, if a slot that is stored to has a type and a slot that is loaded is one lane wide;
* `rule_of_idle` — a rule whose ruling is idle leaves the state exactly as it is, unless it finds a
  division, which it would lower.
-/

namespace TensorKernel

variable {ctx : CheckContext} {isConst isConst' : StmtId → Bool} {τ τ' : TypeMap}
  {u x : StmtId} {i j : Instr} {t : VectorType}

theorem BinaryOp.resultType_of_isBitwise {op : BinaryOp} (h : op.isBitwise = true) :
    op.resultType t = t := by
  refine if_neg fun hcomparison => ?_
  have hneither := op.isBitwise_and_isComparison
  rw [h, hcomparison] at hneither
  cases hneither

namespace Ruling

/-- **Nothing is left to do.** -/
structure Idle (τ : TypeMap) (r : Ruling) : Prop where
  error : r.error = none
  casts : r.casts = 0
  losses : r.losses = []
  sets : ∀ x t, (x, t) ∈ r.sets → τ x = t

theorem typed_eq_self {sets : List (StmtId × VectorType)}
    (h : ∀ x t, (x, t) ∈ sets → τ x = t) : typed τ sets = τ := by
  induction sets with
  | nil => rfl
  | cons set sets ih =>
    obtain ⟨x, t⟩ := set
    have hx : τ x = t := h x t List.mem_cons_self
    rw [typed, ← hx, Function.update_eq_self]
    exact ih fun y t hy => h y t (List.mem_cons_of_mem _ hy)

/-- Where everything is set to one type, that type is found. -/
theorem typed_map {l : List StmtId} (hx : x ∈ l) : typed τ (l.map fun y => (y, t)) x = t := by
  induction l generalizing τ with
  | nil => cases hx
  | cons y l ih =>
    rw [List.map_cons, typed]
    by_cases hl : x ∈ l
    · exact ih hl
    · -- nothing sets it after `y` did
      obtain rfl := (List.mem_cons.1 hx).resolve_right hl
      rcases typed_cases (Function.update τ x t) (l.map fun y => (y, t)) x with hsame | hmem
      · rw [hsame, Function.update_self]
      · obtain ⟨z, hz, heq⟩ := List.mem_map.1 hmem
        exact absurd ((Prod.mk.inj heq).1 ▸ hz) hl

/-- An idle ruling stays idle where it finds the same types. -/
theorem Idle.congr (h : (ruling ctx isConst τ u i).Idle τ) (hu : τ u = τ' u)
    (hτ : ∀ o ∈ i.operands, τ o = τ' o) (hconst : ∀ o ∈ i.operands, isConst o = isConst' o) :
    (ruling ctx isConst' τ' u i).Idle τ' := by
  rw [← ruling_congr hu hτ hconst]
  refine ⟨h.error, h.casts, h.losses, fun x t hx => ?_⟩
  have hset := h.sets x t hx
  rcases mem_sets hx with rfl | ⟨value, rfl, -⟩ | ⟨first, last, body, rfl, rfl | rfl, -⟩
  · rwa [← hu]
  · rwa [← hτ x List.mem_cons_self]
  · rwa [← hτ x List.mem_cons_self]
  · rwa [← hτ x (List.mem_cons_of_mem _ List.mem_cons_self)]

theorem none_idle : Idle τ {} := by
  refine ⟨rfl, rfl, rfl, ?_⟩
  rintro _ _ ⟨⟩

/-- A type that is set already. -/
theorem set_idle (hu : τ u = t) : (set u t).Idle τ := by
  refine ⟨rfl, rfl, rfl, fun x t' hx => ?_⟩
  cases List.mem_singleton.1 hx
  exact hu

/-! ### What rules that convert set -/

section Sets

variable {config : Config} {lhs rhs cond onTrue onFalse slot dest value : StmtId}

/-- The result of an operator is of its operands' type, which is integral under a bitwise one. -/
theorem binary_sets {op : BinaryOp} (herror : (binary config τ u op lhs rhs).error = none) :
    (binary config τ u op lhs rhs).sets =
        [(u, op.resultType ⟨(τ lhs).width, op.common config (τ lhs).elem (τ rhs).elem⟩)] ∧
      (op.isBitwise = true →
        (op.common config (τ lhs).elem (τ rhs).elem).isIntegral = true) := by
  -- the errors are ruled out in the order in which they are checked
  simp only [binary] at herror ⊢
  repeat' split at herror
  · cases herror
  · cases herror
  · cases herror
  next h₁ h₂ h₃ =>
  rw [if_neg h₁, if_neg h₂, if_neg h₃]
  refine ⟨rfl, fun hbitwise => ?_⟩
  simpa [hbitwise] using h₃

theorem ternary_sets {op : TernaryOp}
    (herror : (ternary τ u op cond onTrue onFalse).error = none) :
    op = .select ∧ ∃ elem,
      (ternary τ u op cond onTrue onFalse).sets = [(u, ⟨(τ cond).width, elem⟩)] := by
  -- a selection passes two checks, and `ifte` is never supported
  simp only [ternary] at herror ⊢
  repeat' split at herror
  · cases herror
  · cases herror
  · cases herror
  next hop h₁ h₂ =>
  rw [if_neg hop, if_neg h₁, if_neg h₂]
  refine ⟨?_, _, rfl⟩
  cases op with
  | select => rfl
  | ifte => exact absurd rfl hop

theorem localStore_sets (hknown : (τ slot).isUnknown = false) :
    (localStore config τ u slot value).sets = [(u, τ slot)] := by
  rw [localStore, hknown]
  rfl

/-- A slot without a type takes over that of the value, and so does the store. -/
theorem localStore_sets_of_unknown (hunknown : (τ slot).isUnknown = true) :
    (localStore config τ u slot value).sets = [(slot, τ value), (u, τ value)] := by
  rw [localStore, if_pos hunknown]

theorem atomic_sets (herror : (atomic config τ u dest value).error = none) :
    (atomic config τ u dest value).sets = [(u, .scalar (τ dest).elem)] := by
  simp only [atomic] at herror ⊢
  split at herror
  · cases herror
  next hscalar =>
  rw [if_neg hscalar]
  split <;> rfl

end Sets

/-! ### What is left to do after them -/

/-- A store of a value that has the element type of its place. -/
theorem store_idle {config : Config} {access : Access} {place : VectorType} {value : StmtId}
    (hu : τ u = place) (hvalue : (τ value).elem = place.elem) :
    (store config τ u access place value).Idle τ := by
  have helem : (Function.update τ u place value).elem = place.elem := by
    rw [Function.update_apply]
    split
    · rfl
    · exact hvalue
  have hstore : store config τ u access place value = set u place := by
    simp [store, set, helem, ElementType.castsTo]
  rw [hstore]
  exact set_idle hu

/-- A plain operator whose operands have one type. -/
theorem binary_idle {config : Config} {op : BinaryOp} {lhs rhs : StmtId}
    (hplain : op.lowering? config = none) (hknown : (τ lhs).isUnknown = false)
    (heq : τ lhs = τ rhs) (hbitwise : op.isBitwise = true → (τ lhs).elem.isIntegral = true)
    (hu : τ u = op.resultType (τ lhs)) : (binary config τ u op lhs rhs).Idle τ := by
  -- neither operand changes type: it is not lowered, and the common type is its own
  have hlowered : op.lowered config (τ lhs).elem = (τ lhs).elem := by
    rw [BinaryOp.lowered, hplain]
  have hcommon : op.common config (τ lhs).elem (τ lhs).elem = (τ lhs).elem := by
    rw [BinaryOp.common, hlowered, ElementType.promote_self]
  have hcasts : op.operandCasts config (τ lhs).elem (τ lhs).elem = 0 := by
    rw [BinaryOp.operandCasts, BinaryOp.loweringCasts, hplain, hlowered, ElementType.castsTo,
      if_pos rfl]
  have hne : (τ lhs).elem ≠ .unknown := by
    intro hunknown
    rw [VectorType.isUnknown, hunknown] at hknown
    cases hknown
  have hfits : (op.isBitwise && !(τ lhs).elem.isIntegral) = false := by
    cases hop : op.isBitwise with
    | true => rw [hbitwise hop]; rfl
    | false => rfl
  have hbinary : binary config τ u op lhs rhs = set u (op.resultType (τ lhs)) := by
    simp [binary, set, ← heq, hknown, hcommon, hcasts, hne, hfits]
  rw [hbinary]
  exact set_idle hu

/-- A selection whose branches have the element type of the selection. -/
theorem select_idle {cond onTrue onFalse : StmtId} (hcond : (τ cond).elem = .i32)
    (htrue : (τ cond).width = (τ onTrue).width) (hfalse : (τ onTrue).width = (τ onFalse).width)
    (hwidth : (τ u).width = (τ cond).width) (helem : (τ onTrue).elem = (τ u).elem)
    (helem' : (τ onFalse).elem = (τ u).elem) :
    (ternary τ u .select cond onTrue onFalse).Idle τ := by
  have hselect : ternary τ u .select cond onTrue onFalse =
      set u ⟨(τ cond).width, (τ u).elem⟩ := by
    simp [ternary, set, hcond, htrue, hfalse, helem, helem', ElementType.castsTo]
  rw [hselect, ← hwidth]
  exact set_idle rfl

/-- An atomic operation whose value has the element type of its place. -/
theorem atomic_idle {config : Config} {dest value : StmtId} (hu : τ u = .scalar (τ dest).elem)
    (hvalue : (τ value).elem = (τ dest).elem) : (atomic config τ u dest value).Idle τ := by
  have hatomic : atomic config τ u dest value = set u (.scalar (τ dest).elem) := by
    simp [atomic, hu, hvalue]
  rw [hatomic]
  exact set_idle hu

end Ruling

/-! ### After a rule that converts nothing -/

/-- How wide an instruction was typed is read by few rules, and those leave it so. -/
theorem width_of_sizesItself (hquiet : i.converts = false)
    (herror : (ruling ctx isConst τ u i).error = none)
    (hload : ∀ slot, i = .localLoad slot → (τ slot).width = 1) (hi : i.sizesItself = true) :
    (τ u).width = (Ruling.typed τ (ruling ctx isConst τ u i).sets u).width := by
  cases i with
  | localLoad slot =>
    simp only [ruling, Ruling.localLoad] at herror ⊢
    split at herror
    · cases herror
    next hscalar =>
    rw [if_neg hscalar, Ruling.set, Ruling.typed, Ruling.typed, Function.update_self,
      hload slot rfl, not_not.1 hscalar]
  | globalPtr nodes indices =>
    cases nodes with
    | nil => cases herror
    | cons first rest => simp [ruling, Ruling.globalPtr, Ruling.typed]
  | shuffle lanes =>
    cases lanes with
    | nil => cases herror
    | cons first rest => simp [ruling, Ruling.shuffle, Ruling.set, Ruling.typed]
  | atomic => cases hquiet
  | _ => cases hi

/-- **A rule that converts nothing** has set what it would set again. -/
theorem idle_of_quiet (hquiet : i.converts = false)
    (herror : (ruling ctx isConst τ u i).error = none)
    (htypes : ∀ x, x = u ∨ x ∈ i.operands →
      τ' x = Ruling.typed τ (ruling ctx isConst τ u i).sets x)
    (hself : u ∉ i.operands) (hconst : ∀ o ∈ i.operands, isConst o = isConst' o)
    (hload : ∀ slot, i = .localLoad slot → (τ slot).width = 1) :
    (ruling ctx isConst' τ' u i).Idle τ' := by
  have hwidth : i.sizesItself = true → (τ u).width = (τ' u).width := by
    rw [htypes u (.inl rfl)]
    exact width_of_sizesItself hquiet herror hload
  -- where no operand is typed, the ruling is the one that was followed
  have hsame : (∀ o ∈ i.operands, τ o = τ' o) →
      (∀ x t, (x, t) ∈ (ruling ctx isConst τ u i).sets → τ' x = t) →
      (ruling ctx isConst' τ' u i).Idle τ' := by
    intro hτ hsets
    obtain ⟨hcasts, hlosses⟩ := @quiet_of_not_converts ctx isConst τ u i hquiet
    rw [← ruling_congr_of_width hwidth hτ hconst]
    exact ⟨herror, hcasts, hlosses, hsets⟩
  have hcases := @sets_cases ctx u τ isConst i
  rcases hcases with hnone | ⟨t, hown⟩ | ⟨slot, value, rfl, -⟩ | ⟨first, last, body, rfl, hbounds⟩
  · rw [hnone] at htypes
    refine hsame (fun o ho => (htypes o (.inr ho)).symm) fun x t hx => ?_
    rw [hnone] at hx
    cases hx
  · -- its own type alone is set, which it does not read
    rw [hown] at htypes
    refine hsame (fun o ho => ?_) fun x t' hx => ?_
    · rw [htypes o (.inr ho)]
      exact (Function.update_of_ne (fun hou : o = u => hself (hou ▸ ho)) _ _).symm
    · rw [hown] at hx
      cases List.mem_singleton.1 hx
      rw [htypes u (.inl rfl)]
      exact Function.update_self ..
  · cases hquiet
  · -- a loop reads no types, and the bounds that it types are typed as loop indices
    have hfilter : [first, last].filter isConst' = [first, last].filter isConst :=
      List.filter_congr fun o ho => (hconst o ho).symm
    refine ⟨rfl, rfl, rfl, fun x t hx => ?_⟩
    obtain ⟨y, hy, heq⟩ := List.mem_map.1 hx
    cases heq
    rw [htypes x (.inr (List.mem_filter.1 hy).1), hbounds]
    exact Ruling.typed_map (hfilter ▸ hy)

/-! ### After any rule -/

/-- **Right after a rule has passed, nothing is left to do**, if a slot that was stored to has a
type then, and a slot that was loaded is one lane wide. -/
theorem idle_of_rule {R : StmtId → StmtId → Prop} {signature : Signature}
    (herror : (ruling ctx isConst τ u i).error = none)
    (htypes : ∀ x, x = u ∨ x ∈ i.operands →
      τ' x = Ruling.typed τ (ruling ctx isConst τ u i).sets x)
    (hself : u ∉ i.operands) (hconst : ∀ o ∈ i.operands, isConst o = isConst' o)
    (hredirected : Redirected R i j) (hagreed : Agreed signature τ' u j) (hmatched : Matched τ' u j)
    (hplain : ∀ op lhs rhs, j = .binary op lhs rhs → op.lowering? ctx.config = none)
    (hload : ∀ slot, i = .localLoad slot → (τ slot).width = 1)
    (hstore : ∀ slot value, i = .localStore slot value → (τ' slot).isUnknown = false) :
    (ruling ctx isConst' τ' u j).Idle τ' := by
  -- most rules set one type, that of their own instruction
  have hown : ∀ {t}, (ruling ctx isConst τ u i).sets = [(u, t)] →
      τ' u = t ∧ ∀ o ∈ i.operands, τ' o = τ o := by
    intro t hsets
    rw [hsets] at htypes
    refine ⟨(htypes u (.inl rfl)).trans (Function.update_self ..), fun o ho => ?_⟩
    rw [htypes o (.inr ho)]
    exact Function.update_of_ne (fun hou : o = u => hself (hou ▸ ho)) _ _
  -- where nothing is converted, `j` is `i`
  cases hi : i.converts with
  | false =>
    obtain rfl := hredirected.eq_of_converts hi
    exact idle_of_quiet hi herror htypes hself hconst hload
  | true =>
    cases i with
    | binary op lhs rhs =>
      obtain ⟨op', l, r, rfl, hop⟩ := hredirected.exists_binary
      have hop : Checker.Lowers op op' := hop
      obtain ⟨hknown, heq, hresult⟩ := hagreed
      refine Ruling.binary_idle (hplain _ _ _ rfl) hknown heq (fun hbitwise => ?_) hresult
      -- a bitwise operator is not lowered and has its operands' type
      have hbitwise : op.isBitwise = true := hop.isBitwise_eq ▸ hbitwise
      obtain rfl := hop.eq_of_isBitwise hbitwise
      obtain ⟨hsets, hintegral⟩ := Ruling.binary_sets herror
      have hu := (hown hsets).1
      rw [BinaryOp.resultType_of_isBitwise hbitwise] at hu hresult
      rw [← hresult, hu]
      exact hintegral hbitwise
    | ternary op cond onTrue onFalse =>
      obtain ⟨e, e', rfl⟩ : ∃ e e', j = .ternary op cond e e' := by
        cases hredirected with
        | same | select => exact ⟨_, _, rfl⟩
      obtain ⟨hcond, htrue, hfalse, -⟩ := hagreed
      obtain ⟨helem, helem'⟩ := hmatched
      obtain ⟨rfl, elem, hsets⟩ := Ruling.ternary_sets herror
      obtain ⟨hu, hoperands⟩ := hown hsets
      refine Ruling.select_idle hcond htrue hfalse ?_ helem helem'
      rw [hu, hoperands cond List.mem_cons_self]
    | localStore slot value =>
      obtain ⟨e, rfl⟩ : ∃ e, j = .localStore slot e := by
        cases hredirected with
        | same | localStore => exact ⟨_, rfl⟩
      have hknown := hstore slot value rfl
      -- an untyped slot got the type that the store got, and a typed one gave it its own
      have hu : τ' u = τ' slot := by
        cases hunknown : (τ slot).isUnknown with
        | true =>
          rw [ruling, Ruling.localStore_sets_of_unknown hunknown] at htypes
          have hne : slot ≠ u := fun h => hself (h ▸ List.mem_cons_self)
          rw [htypes u (.inl rfl), htypes slot (.inr List.mem_cons_self)]
          simp [Ruling.typed, Function.update_of_ne hne]
        | false =>
          obtain ⟨hu, hoperands⟩ := hown (Ruling.localStore_sets hunknown)
          rw [hu, hoperands slot List.mem_cons_self]
      rw [ruling, Ruling.localStore, hknown]
      exact Ruling.store_idle hu (hu ▸ hmatched)
    | globalStore ptr value =>
      obtain ⟨e, rfl⟩ : ∃ e, j = .globalStore ptr e := by
        cases hredirected with
        | same | globalStore => exact ⟨_, rfl⟩
      obtain ⟨hu, hoperands⟩ := hown rfl
      have hptr : τ' u = τ' ptr := by
        rw [hu, hoperands ptr List.mem_cons_self]
      exact Ruling.store_idle hptr (hptr ▸ hmatched)
    | atomic op dest value =>
      obtain ⟨e, rfl⟩ : ∃ e, j = .atomic op dest e := by
        cases hredirected with
        | same | atomic => exact ⟨_, rfl⟩
      obtain ⟨hu, hoperands⟩ := hown (Ruling.atomic_sets herror)
      rw [← hoperands dest List.mem_cons_self] at hu
      refine Ruling.atomic_idle hu ?_
      have hvalue : (τ' e).elem = (τ' u).elem := hmatched
      rw [hvalue, hu, VectorType.scalar_elem]
    | _ => cases hi

/-! ### A rule at rest -/

/-- What is pointed where it was pointed stays as it is, unless it is a division. -/
theorem Redirected.eq_of_plain {R : StmtId → StmtId → Prop} {config : Config}
    (h : Redirected R i j) (hR : ∀ x y, R x y → x = y)
    (hplain : ∀ op lhs rhs, i = .binary op lhs rhs → op.lowering? config = none) : j = i := by
  cases h with
  | same => rfl
  | binary hop hl hr =>
    rw [hR _ _ hl, hR _ _ hr]
    -- only an operator that is lowered can have become another one
    rcases hop with rfl | ⟨rfl | rfl, -⟩
    · rfl
    · cases hplain _ _ _ rfl
    · cases hplain _ _ _ rfl
  | select ht hf => rw [hR _ _ ht, hR _ _ hf]
  | localStore hv | globalStore hv | atomic hv => rw [hR _ _ hv]

namespace Program

variable {p q : Program}

/-- **An extension that adds nothing** and changes no type and no instruction is no change. -/
theorem Extends.eq (h : p.Extends q) (hq : q.Coherent) (hsize : q.size = p.size)
    (htypes : ∀ x < p.size, q.typeAt x = p.typeAt x)
    (hinstr : ∀ x < p.size, q.instrAt x = p.instrAt x) : q = p := by
  refine ext_views hsize (fun x hx => ?_) ?_
  · rw [hsize] at hx
    show (⟨(q.stmtAt x).id, q.spanAt x, q.typeAt x, q.instrAt x, q.homeAt x⟩ : Stmt) =
      ⟨(p.stmtAt x).id, p.spanAt x, p.typeAt x, p.instrAt x, p.homeAt x⟩
    rw [h.id_eq x hx, h.span x hx, htypes x hx, hinstr x hx, h.home x hx]
  · have hblock : ∀ b, q.blockAt b = p.blockAt b := by
      intro b
      -- all that is listed is old
      have hlist : q.listAt b = p.listAt b := by
        rw [← h.list b]
        exact (List.filter_eq_self.2 fun x hx =>
          decide_eq_true (hsize ▸ (hq.owned b x hx).1)).symm
      show (⟨q.listAt b, q.parentAt b⟩ : Block) = ⟨p.listAt b, p.parentAt b⟩
      rw [hlist, h.parent b]
    refine Array.ext h.blocks_size fun b hb hb' => ?_
    have hb := hblock b
    unfold blockAt at hb
    rwa [Array.getElem?_eq_getElem, Array.getElem?_eq_getElem] at hb

end Program

namespace Checker

variable {excuse : Prop} {s : CheckState}

/-- **A rule at rest leaves everything as it is.** -/
theorem rule_of_idle (hs : Ready s.program.size u s.program)
    (ht : excuse ∨ ctx.storage.Answers (s.program.instrAt u).nodes) (hwarnings : s.warnings = [])
    (hplain : ∀ op lhs rhs, s.program.instrAt u = .binary op lhs rhs →
      op.lowering? ctx.config = none)
    (hidle : (ruling ctx (fun x => (s.program.instrAt x).isConst) s.program.typeAt u
      (s.program.instrAt u)).Idle s.program.typeAt) :
    Ends excuse s (rule ctx u (s.program.instrAt u)) fun r left => r = .ok () ∧ left = s := by
  have hobeys := (rule_obeys hs ht).and ((balanced ctx.config).rule ctx.storage ctx.signature _ s)
  refine hobeys.mono ?_
  rintro r left ⟨h, hbalance⟩
  have hcoherent := h.progress.moves.coherent hs.coherent
  -- an idle ruling counts no conversion, and what is not counted is not inserted
  have hcasts : left.casts = s.casts := by
    rw [h.progress.casts, hidle.casts, Nat.add_zero]
  have hsize : left.program.size = s.program.size := by omega
  have hwarnings' : left.warnings = s.warnings := by
    have hnone := h.progress.warnings
    rw [hidle.losses, hwarnings, List.map_nil, List.map_nil, List.nil_append,
      List.map_eq_nil_iff] at hnone
    rw [hnone, hwarnings]
  have hprogram : left.program = s.program := by
    -- the programs have the same size, and agree on types and on instructions
    refine (h.progress.moves.extension hs.coherent).eq hcoherent hsize (fun x hx => ?_)
      fun x hx => ?_
    · rw [h.progress.types x hx, Ruling.typed_eq_self hidle.sets]
    · by_cases hxu : x = u
      · subst hxu
        -- there is no conversion that anything could be seen through
        have hstands : ∀ c o, left.program.StandsFor s.program.size c o → c = o := by
          intro c o hc
          cases hc with
          | refl => rfl
          | cast hge hi =>
            have hlt : c < left.program.size :=
              Program.lt_size_of_instrAt_ne (by rw [hi]; simp)
            exact absurd hge (Nat.not_le.2 (hsize ▸ hlt))
        have herases := (Program.Erases.refl hs.coherent).moves hs.coherent h.progress.moves
        exact (herases.redirected x hx).eq_of_plain hstands hplain
      · exact h.progress.moves.instrAt_eq hs.coherent hx hxu
  refine ⟨h.verdict.trans (Ruling.answer_eq_ok_iff.2 hidle.error), ?_⟩
  obtain ⟨program, warnings, casts⟩ := left
  obtain ⟨program', warnings', casts'⟩ := s
  cases hprogram
  cases hwarnings'
  cases hcasts
  rfl

end Checker

end TensorKernel
