import TensorKernel.Proofs.Upheld

/-!
# Programs whose types are read once they are settled

A check types everything once and never looks back, so a type that a rule has read may change after
it (`Program.Late`). In a steady program that does not happen (`Program.Steady`): operands come
before what reads them, the constants that bound loops are loop indices from the start, and a slot
either has a type from the start or gets one where it is used first.

What a slot is at any time is told by the inference (`Steady.slot_type`), and hence nothing changes
late (`Steady.not_late`).
-/

namespace TensorKernel

variable {ctx : CheckContext} {p : Program} {order l l' front back : List StmtId} {i j : Inference}
  {u v d slot : StmtId} {t : VectorType}

/-- The slot that a local load or store accesses. -/
def Instr.slot? : Instr → Option StmtId
  | localLoad slot | localStore slot _ => some slot
  | _ => none

/-- The bounds of a loop over a range. -/
def Instr.bounds : Instr → List StmtId
  | rangeFor first last _ => [first, last]
  | _ => []

theorem Instr.exists_of_isConst {i : Instr} (h : i.isConst = true) : ∃ value, i = .const value := by
  unfold isConst at h
  split at h
  · exact ⟨_, rfl⟩
  · cases h

theorem Instr.slot_mem_operands {i : Instr} (h : i.slot? = some slot) : slot ∈ i.operands := by
  cases i with
  | localLoad | localStore => cases h; exact List.mem_cons_self
  | _ => cases h

namespace Program

/-- **The first use of a slot** is a store, of a value that has a type by then and is one lane
wide. -/
def StoredFirst (p : Program) (ctx : CheckContext) (order : List StmtId) (slot : StmtId) : Prop :=
  ∃ front v back value, order = front ++ v :: back ∧ p.instrAt v = .localStore slot value ∧
    (∀ w ∈ front, slot ∉ (p.instrAt w).operands) ∧
    ((p.infer ctx front).2.types value).isUnknown = false ∧
    ((p.infer ctx front).2.types value).width = 1

/-- **Types are settled before they are read.** -/
structure Steady (p : Program) (ctx : CheckContext) (order : List StmtId) : Prop where
  /-- Operands come before what reads them. -/
  before : ∀ u ∈ order, ∀ o ∈ (p.instrAt u).operands, order.idxOf o < order.idxOf u
  /-- A constant that bounds a loop is a loop index already. -/
  bounds : ∀ u ∈ order, ∀ bound ∈ (p.instrAt u).bounds, (p.instrAt bound).isConst = true →
    p.typeAt bound = .scalar .i32
  /-- A slot has a type and is one lane wide from the start, or is stored to first. -/
  slots : ∀ u ∈ order, ∀ slot, (p.instrAt u).slot? = some slot → p.instrAt slot = .alloca ∧
    ((p.typeAt slot).isUnknown = false ∧ (p.typeAt slot).width = 1 ∨ p.StoredFirst ctx order slot)

/-! ### Types that are kept -/

/-- A type is kept along a list of instructions if none of them sets another one. -/
theorem types_kept (hrun : Inference.run (p.rulings ctx) l i = (.ok (), j))
    (h : ∀ v ∈ l, ∀ τ : TypeMap, τ d = i.types d → ∀ t, (d, t) ∈ (p.rulings ctx τ v).sets →
      t = i.types d) : j.types d = i.types d := by
  induction l generalizing i with
  | nil =>
    rw [Inference.run, Prod.mk.injEq] at hrun
    rw [hrun.2]
  | cons v l ih =>
    rw [Inference.run] at hrun
    cases hv : (p.rulings ctx i.types v).verdict v with
    | error fatal => rw [hv] at hrun; cases hrun
    | ok =>
      rw [hv] at hrun
      -- a rule sets the type to what it is, or does not set it at all
      have hnext : (i.follow v (p.rulings ctx i.types v)).types d = i.types d := by
        rcases Ruling.typed_cases i.types (p.rulings ctx i.types v).sets d with hsame | hmem
        · exact hsame
        · exact h v List.mem_cons_self i.types rfl _ hmem
      rw [← hnext]
      refine ih hrun fun w hw τ hτ t ht => ?_
      rw [hnext] at hτ ⊢
      exact h w (List.mem_cons_of_mem _ hw) τ hτ t ht

/-- The rule of an `alloca` types nothing, and no loop types one; a store types only what it stores
to. -/
theorem sets_alloca {τ : TypeMap} (hd : p.instrAt d = .alloca)
    (h : (d, t) ∈ (p.rulings ctx τ v).sets) :
    (τ d).isUnknown = true ∧ d ∈ (p.instrAt v).operands := by
  rcases mem_sets h with rfl | ⟨value, hi, hunknown⟩ | ⟨first, last, body, hi, hbound, hconst, -⟩
  · rw [rulings, hd] at h
    cases h
  · exact ⟨hunknown, hi ▸ List.mem_cons_self⟩
  · rw [hd] at hconst
    cases hconst

/-- **A slot that has a type keeps it.** -/
theorem types_kept_of_known (hd : p.instrAt d = .alloca)
    (hrun : Inference.run (p.rulings ctx) l i = (.ok (), j))
    (hknown : (i.types d).isUnknown = false) : j.types d = i.types d := by
  refine types_kept hrun fun v _ τ hτ t ht => ?_
  have hunknown := (sets_alloca hd ht).1
  rw [hτ, hknown] at hunknown
  cases hunknown

/-- A slot that is not used keeps its type. -/
theorem types_kept_of_unused (hd : p.instrAt d = .alloca)
    (hrun : Inference.run (p.rulings ctx) l i = (.ok (), j))
    (hunused : ∀ w ∈ l, d ∉ (p.instrAt w).operands) : j.types d = i.types d :=
  types_kept hrun fun v hv _ _ _ ht => absurd (sets_alloca hd ht).2 (hunused v hv)

/-- A constant that is a loop index stays one. -/
theorem types_kept_of_index (hd : (p.instrAt d).isConst = true)
    (hrun : Inference.run (p.rulings ctx) l i = (.ok (), j))
    (hindex : i.types d = .scalar .i32) : j.types d = i.types d := by
  refine types_kept hrun fun v _ τ hτ t ht => ?_
  rcases mem_sets ht with rfl | ⟨value, -, hunknown⟩ | ⟨first, last, body, -, -, -, rfl⟩
  · -- the rule of a constant types nothing
    obtain ⟨value, hi⟩ := Instr.exists_of_isConst hd
    rw [rulings, hi] at ht
    cases ht
  · rw [hτ, hindex] at hunknown
    cases hunknown
  · exact hindex.symm

/-! ### Slots -/

/-- A slot that has a type from the start has it all along. -/
theorem types_of_known (halloca : p.instrAt slot = .alloca)
    (hknown : (p.typeAt slot).isUnknown = false) (hpassed : (p.infer ctx l).1 = .ok ()) :
    (p.infer ctx l).2.types slot = p.typeAt slot := by
  have hinfer : p.infer ctx l = (.ok (), (p.infer ctx l).2) := Prod.ext hpassed rfl
  exact types_kept_of_known halloca hinfer hknown

/-- **Where a slot is stored to first**, it takes over the type of the value, and keeps it. -/
theorem types_of_stored {value : StmtId} (halloca : p.instrAt slot = .alloca)
    (hunknown : (p.typeAt slot).isUnknown = true) (hstore : p.instrAt v = .localStore slot value)
    (hunused : ∀ w ∈ l, slot ∉ (p.instrAt w).operands)
    (hvalue : ((p.infer ctx l).2.types value).isUnknown = false)
    (hpassed : (p.infer ctx (l ++ v :: l')).1 = .ok ()) :
    (p.infer ctx (l ++ v :: l')).2.types slot = (p.infer ctx l).2.types value := by
  -- the store types the slot, which nothing has used yet, and nothing types it again
  have hne : slot ≠ v := by
    rintro rfl
    rw [halloca] at hstore
    cases hstore
  rw [List.append_cons] at hpassed ⊢
  obtain ⟨hpassed', hrest⟩ := infer_of_append hpassed
  have hinfer : p.infer ctx l = (.ok (), (p.infer ctx l).2) :=
    Prod.ext (infer_of_append hpassed').1 rfl
  have hsets : (p.rulings ctx (p.infer ctx l).2.types v).sets =
      [(slot, (p.infer ctx l).2.types value), (v, (p.infer ctx l).2.types value)] := by
    rw [rulings, hstore, ruling, Ruling.localStore, if_pos]
    rw [types_kept_of_unused halloca hinfer hunused]
    exact hunknown
  have htaken : (p.infer ctx (l ++ [v])).2.types slot = (p.infer ctx l).2.types value := by
    rw [infer, Inference.run_append_singleton hinfer]
    show Ruling.typed _ (p.rulings ctx (p.infer ctx l).2.types v).sets slot = _
    rw [hsets]
    simp [Ruling.typed, Function.update_of_ne hne]
  rw [← htaken] at hvalue ⊢
  exact types_kept_of_known halloca hrest hvalue

/-- Two ways to cut a list: the cuts are the same, or the first one is the later one. -/
private theorem cut_cases {back' : List StmtId} {w : StmtId}
    (h : front ++ u :: back = l ++ w :: back') (hu : u ∉ l) :
    front = l ∧ u = w ∨ ∃ mid, front = l ++ w :: mid := by
  rcases List.append_eq_append_iff.1 h with ⟨rest, rfl, heq⟩ | ⟨rest, rfl, heq⟩
  · cases rest with
    | nil => exact .inl ⟨(List.append_nil _).symm, (List.cons.inj heq).1⟩
    | cons x rest =>
      -- then `u` would stand in `l`
      cases heq
      exact absurd (by simp) hu
  · cases rest with
    | nil => exact .inl ⟨List.append_nil _, (List.cons.inj heq).1.symm⟩
    | cons x rest =>
      cases heq
      exact .inr ⟨rest, rfl⟩

namespace Steady

theorem mem_front (h : p.Steady ctx order) (hnodup : order.Nodup)
    (heq : order = front ++ u :: back) : ∀ o ∈ (p.instrAt u).operands, o ∈ front := by
  subst heq
  exact fun o ho => mem_front_of_idxOf_lt hnodup (h.before u (by simp) o ho)

/-- **What a slot is when it is used**: it has a type after that, and where it is loaded it is one
lane wide, unless it was given another width from the start. -/
theorem slot_type (h : p.Steady ctx order) (hslot : ∃ w ∈ order, (p.instrAt w).slot? = some slot)
    (heq : order = front ++ u :: back) (hpassed : (p.infer ctx (front ++ [u])).1 = .ok ())
    (hmem : slot ∈ (p.instrAt u).operands) :
    (p.typesAfter ctx front u slot).isUnknown = false ∧
      (p.instrAt u = .localLoad slot →
        ((p.typeAt slot).isUnknown = false → (p.typeAt slot).width = 1) →
          ((p.infer ctx front).2.types slot).width = 1) := by
  obtain ⟨w, hw, hslot⟩ := hslot
  obtain ⟨halloca, hcases⟩ := h.slots w hw slot hslot
  by_cases hknown : (p.typeAt slot).isUnknown = false
  · -- it has its type from the start
    refine ⟨?_, fun _ hwidth => ?_⟩
    · rw [typesAfter, types_of_known halloca hknown hpassed]
      exact hknown
    · rw [types_of_known halloca hknown (infer_of_append hpassed).1]
      exact hwidth hknown
  · obtain ⟨front', v, back', value, heq', hstore, hunused, hvalue, hwidth⟩ :=
      hcases.resolve_left fun h => hknown h.1
    -- the first store types the slot, and nothing types it again
    have htypes : ∀ {l}, (p.infer ctx (front' ++ v :: l)).1 = .ok () →
        (p.infer ctx (front' ++ v :: l)).2.types slot = (p.infer ctx front').2.types value :=
      types_of_stored halloca (Bool.eq_true_of_not_eq_false hknown) hstore hunused hvalue
    have hu : u ∉ front' := fun hmem' => hunused u hmem' hmem
    rcases cut_cases (heq.symm.trans heq') hu with ⟨rfl, rfl⟩ | ⟨mid, rfl⟩
    · -- this is the first store
      refine ⟨?_, fun hload => ?_⟩
      · rw [typesAfter, htypes hpassed]
        exact hvalue
      · rw [hstore] at hload
        cases hload
    · -- the first store came before
      refine ⟨?_, fun _ _ => ?_⟩
      · rw [List.append_assoc, List.cons_append] at hpassed
        rw [typesAfter, List.append_assoc, List.cons_append, htypes hpassed]
        exact hvalue
      · rw [htypes (infer_of_append hpassed).1]
        exact hwidth

/-- **Nothing that was read changes late.** -/
theorem not_late (h : p.Steady ctx order) (heq : order = front ++ u :: back)
    (hpassed : (p.infer ctx order).1 = .ok ()) (hd : d ∈ (p.instrAt u).operands) :
    ¬ p.Late (p.typesAfter ctx front u) back d := by
  have hpassed' : (p.infer ctx (front ++ [u])).1 = .ok () := by
    rw [heq, List.append_cons] at hpassed
    exact (infer_of_append hpassed).1
  rintro (⟨hconst, hne, loop, hloop, first, last, body, hi, hbound⟩ |
    ⟨hunknown, store, hstore, value, hi⟩)
  · -- a constant that bounds a loop is a loop index from the start
    have hindex : p.typeAt d = .scalar .i32 := by
      refine h.bounds loop (by simp [heq, hloop]) d ?_ hconst
      rw [hi]
      rcases hbound with rfl | rfl <;> simp [Instr.bounds]
    have hinfer : p.infer ctx (front ++ [u]) = (.ok (), _) := Prod.ext hpassed' rfl
    exact hne ((types_kept_of_index hconst hinfer hindex).trans hindex)
  · -- a slot has a type once it was used
    have hslot : ∃ w ∈ order, (p.instrAt w).slot? = some d :=
      ⟨store, by simp [heq, hstore], by rw [hi]; rfl⟩
    rw [(h.slot_type hslot heq hpassed' hd).1] at hunknown
    cases hunknown

/-- What changes late is a constant or a slot. -/
theorem source_of_late (h : p.Steady ctx order) (heq : order = front ++ u :: back) {τ : TypeMap}
    (hlate : p.Late τ back d) : (p.instrAt d).isConst = true ∨ p.instrAt d = .alloca := by
  rcases hlate with ⟨hconst, -⟩ | ⟨-, store, hstore, value, hi⟩
  · exact .inl hconst
  · exact .inr (h.slots store (by simp [heq, hstore]) d (by rw [hi]; rfl)).1

end Steady

end Program

end TensorKernel
