import TensorKernel.Proofs.Ends
import TensorKernel.Proofs.Erasure
import TensorKernel.Proofs.Ruling

/-!
# The state inside a rule

The rule of an instruction `u` is a chain of small steps. `Checker.Progress` says how far it has
come: which moves led from the state it started in to the one it is in, which types were set, how
many conversions were made and what was warned of. Each primitive step appends to it
(`Progress.retype`, `Progress.splice`, `Progress.rewrite`, `Progress.warn`).

Conversions are made before the rule points its instruction at them, in a state that is `Working`:
what the instruction reads is still what it read at the start. Such a state knows of each operand
what serves in its place and with which type (`Held`), and a further conversion forgets none of
this (`convert_ends`, `coerce_ends`).
-/

namespace TensorKernel

theorem Ruling.typed_append (τ : TypeMap) (sets : List (StmtId × VectorType)) (x : StmtId)
    (t : VectorType) :
    Ruling.typed τ (sets ++ [(x, t)]) = Function.update (Ruling.typed τ sets) x t := by
  induction sets generalizing τ with
  | nil => rfl
  | cons set sets ih => exact ih _

/-- What a warning is about, apart from the looks of the instruction. -/
def Warning.subject (w : Warning) : StmtId × PrecisionLoss := (w.stmt, w.loss)

namespace Checker

open Program (Moves Move Side)

variable {n k : Nat} {u o d x : StmtId} {s s₁ : CheckState} {t : VectorType}
  {elem target : ElementType} {sets : List (StmtId × VectorType)} {losses : List PrecisionLoss}
  {excuse : Prop}

/-! ### How far a rule has come -/

/-- What the rule of `u` relies on. -/
structure Ready (n : Nat) (u : StmtId) (p : Program) : Prop where
  coherent : p.Coherent
  grounded : p.Grounded
  old : n ≤ p.size
  lt_size : u < p.size

theorem Ready.moves {p q : Program} (h : Ready n u p) (hmoves : Moves n u p q) : Ready n u q where
  coherent := hmoves.coherent h.coherent
  grounded := hmoves.grounded h.grounded
  old := Nat.le_trans h.old (hmoves.extension h.coherent).size_le
  lt_size := Nat.lt_of_lt_of_le h.lt_size (hmoves.extension h.coherent).size_le

/-- In `q`, `c` is a conversion that was inserted for an operand that `u` has in `p`. Its width is
that of what it converts, if `u` does not read itself. -/
def Converts (n : Nat) (u : StmtId) (p q : Program) (c : StmtId) : Prop :=
  ∃ o ∈ (p.instrAt u).operands, q.StandsFor n c o ∧ ∃ target d,
    q.instrAt c = .unary (.cast target true) d ∧
      (u ∉ (p.instrAt u).operands → d ≠ u ∧ (q.typeAt c).width = (q.typeAt d).width)

/-- From `s` to `s'` the rule of `u` made these settings, conversions and warnings, and nothing
else. -/
structure Progress (n : Nat) (u : StmtId) (s s' : CheckState)
    (sets : List (StmtId × VectorType)) (k : Nat) (losses : List PrecisionLoss) : Prop where
  moves : Moves n u s.program s'.program
  types : ∀ x < s.program.size, s'.program.typeAt x = Ruling.typed s.program.typeAt sets x
  casts : s'.casts = s.casts + k
  warnings : s'.warnings.map Warning.subject =
    s.warnings.map Warning.subject ++ losses.map fun loss => (u, loss)
  fresh : ∀ c, s.program.size ≤ c → c < s'.program.size → Converts n u s.program s'.program c

namespace Progress

theorem refl (n : Nat) (u : StmtId) (s : CheckState) : Progress n u s s [] 0 [] where
  moves := .refl
  types _ _ := rfl
  casts := rfl
  warnings := (List.append_nil _).symm
  fresh _ hc hc' := absurd hc (Nat.not_le.2 hc')

theorem size_le (h : Progress n u s s₁ sets k losses) (hs : Ready n u s.program) :
    s.program.size ≤ s₁.program.size :=
  (h.moves.extension hs.coherent).size_le

/-- A type is set: of `u` itself, or before any conversion was made. -/
theorem retype (h : Progress n u s s₁ sets k losses) (hs : Ready n u s.program)
    (hmove : Move n u s₁.program (s₁.program.retype x t)) (hx : x < s₁.program.size)
    (hown : x = u ∨ s₁.program.size = s.program.size) :
    Progress n u s { s₁ with program := s₁.program.retype x t } (sets ++ [(x, t)]) k losses where
  moves := h.moves.tail hmove
  types y hy := by
    rw [Ruling.typed_append, Function.update_apply, ← h.types y hy]
    exact Program.typeAt_retype hx
  casts := h.casts
  warnings := h.warnings
  fresh c hc hc' := by
    rw [Program.size_retype] at hc'
    -- the conversions are still there; what is to be shown is that they kept their width
    have hext := hmove.extends (hs.moves h.moves).coherent
    obtain ⟨o, ho, hstands, target, d, hi, hd⟩ := h.fresh c hc hc'
    refine ⟨o, ho, hext.standsFor hstands, target, d, ?_, ?_⟩
    · rw [Program.instrAt_retype]
      exact hi
    · intro hself
      obtain ⟨hdu, hwidth⟩ := hd hself
      refine ⟨hdu, ?_⟩
      rcases hown with rfl | hsize
      · -- neither the conversion nor what it converts is `u`
        have hcu : c ≠ x := Nat.ne_of_gt (Nat.lt_of_lt_of_le hs.lt_size hc)
        rwa [Program.typeAt_retype hx, Program.typeAt_retype hx, if_neg hcu, if_neg hdu]
      · exact absurd hc (Nat.not_le.2 (hsize ▸ hc'))

theorem own (h : Progress n u s s₁ sets k losses) (hs : Ready n u s.program) :
    Progress n u s { s₁ with program := s₁.program.retype u t } (sets ++ [(u, t)]) k losses :=
  h.retype hs (.own t) (hs.moves h.moves).lt_size (.inl rfl)

/-- The instruction is pointed at what serves as its operands. -/
theorem rewrite {i : Instr} (h : Progress n u s s₁ sets k losses) (hs : Ready n u s.program)
    (hi : Redirected (s₁.program.Serves n u) (s₁.program.instrAt u) i) :
    Progress n u s { s₁ with program := s₁.program.rewrite u i } sets k losses where
  moves := h.moves.tail (.redirect (hs.moves h.moves).lt_size hi)
  types y hy := (Program.typeAt_rewrite).trans (h.types y hy)
  casts := h.casts
  warnings := h.warnings
  fresh c hc hc' := by
    rw [Program.size_rewrite] at hc'
    -- a conversion does not become another instruction
    have hu := (hs.moves h.moves).lt_size
    have hext := (hs.moves h.moves).coherent.extends_rewrite hu hi
    obtain ⟨o, ho, hstands, target, d, hc, hd⟩ := h.fresh c hc hc'
    refine ⟨o, ho, hext.standsFor hstands, target, d, ?_, ?_⟩
    · exact (hext.cast c (Instr.isValueCast_iff.2 ⟨_, _, hc⟩)).trans hc
    · intro hself
      exact ⟨(hd hself).1, by simpa using (hd hself).2⟩

theorem warn {w : Warning} (h : Progress n u s s₁ sets k losses) (hw : w.stmt = u) :
    Progress n u s { s₁ with warnings := s₁.warnings ++ [w] } sets k (losses ++ [w.loss]) where
  moves := h.moves
  types := h.types
  casts := h.casts
  warnings := by
    rw [List.map_append, h.warnings, ← hw]
    simp [Warning.subject]
  fresh := h.fresh

end Progress

/-! ### Making conversions -/

/-- Conversions are being made for the operands that `u` has in `s`. -/
structure Working (n : Nat) (u : StmtId) (s s₁ : CheckState)
    (sets : List (StmtId × VectorType)) (k : Nat) (losses : List PrecisionLoss) : Prop extends
    Progress n u s s₁ sets k losses where
  start : Ready n u s.program
  instr_eq : s₁.program.instrAt u = s.program.instrAt u

theorem Working.ready (h : Working n u s s₁ sets k losses) : Ready n u s₁.program :=
  h.start.moves h.moves

theorem Working.refl (hs : Ready n u s.program) : Working n u s s [] 0 [] :=
  ⟨.refl n u s, hs, rfl⟩

/-- `d` serves in the place of the operand `o` of `u` and has type `t`. -/
structure Held (n : Nat) (u : StmtId) (p : Program) (o d : StmtId) (t : VectorType) : Prop where
  mem : o ∈ (p.instrAt u).typedOperands
  lt_size : d < p.size
  serves : p.Serves n u d o
  type : p.typeAt d = t
  /-- It is not the reader, unless that is its own operand. -/
  ne : u ∉ (p.instrAt u).operands → d ≠ u

theorem Held.mem_operands {p : Program} (h : Held n u p o d t) : o ∈ (p.instrAt u).operands :=
  Instr.typedOperands_subset _ h.mem

theorem Ready.held {p : Program} (h : Ready n u p) (ho : o ∈ (p.instrAt u).typedOperands) :
    Held n u p o o (p.typeAt o) where
  mem := ho
  lt_size := h.grounded u h.lt_size o ho
  serves := .refl n p u o
  type := rfl
  ne hself hou := by
    have hmem : o ∈ (p.instrAt u).operands := Instr.typedOperands_subset _ ho
    exact hself (hou ▸ hmem)

/-- A conversion that is inserted leaves everything held. -/
theorem Held.splice {p : Program} {side : Side} {anchor input : StmtId} (h : Held n u p o d t)
    (hp : Ready n u p) (ha : anchor < p.size) :
    Held n u (p.splice side anchor input target) o d t where
  mem := by rw [Program.instrAt_splice_of_lt hp.lt_size]; exact h.mem
  lt_size := Program.size_splice ▸ Nat.lt_succ_of_lt h.lt_size
  serves := (hp.coherent.extends_splice side input target ha).serves hp.coherent
    (hp.grounded u hp.lt_size o h.mem) hp.lt_size h.serves
  type := (Program.typeAt_splice_of_lt h.lt_size).trans h.type
  ne := by rw [Program.instrAt_splice_of_lt hp.lt_size]; exact h.ne

/-- What a conversion leaves behind: `e` serves for `o` with the type `t`, and what was held is
held. -/
def Brought (n : Nat) (u : StmtId) (s s₁ s₂ : CheckState) (sets : List (StmtId × VectorType))
    (k : Nat) (losses : List PrecisionLoss) (o e : StmtId) (t : VectorType) : Prop :=
  Working n u s s₂ sets k losses ∧ Held n u s₂.program o e t ∧
    ∀ o' d' t', Held n u s₁.program o' d' t' → Held n u s₂.program o' d' t'

theorem Working.brought_self (h : Working n u s s₁ sets k losses) (hd : Held n u s₁.program o d t) :
    Brought n u s s₁ s₁ sets k losses o d t :=
  ⟨h, hd, fun _ _ _ h => h⟩

/-- A conversion of what is held for `o`, right before `u` or right behind the operand. -/
private theorem Working.brought_splice {side : Side} {anchor : StmtId}
    (h : Working n u s s₁ sets k losses) (hd : Held n u s₁.program o d t)
    (ha : anchor < s₁.program.size)
    (hmove : Move n u s₁.program (s₁.program.splice side anchor d target))
    (hdom : s₁.program.Dominates d u →
      (s₁.program.splice side anchor d target).Dominates s₁.program.size u) :
    Brought n u s s₁
      { s₁ with program := s₁.program.splice side anchor d target, casts := s₁.casts + 1 }
      sets (k + 1) losses o s₁.program.size ⟨t.width, target⟩ := by
  have hr := h.ready
  have hp := hr.coherent
  have hext := hp.extends_splice side d target ha
  have hsize := h.size_le h.start
  have hinstr : (s₁.program.splice side anchor d target).instrAt u = s₁.program.instrAt u :=
    Program.instrAt_splice_of_lt hr.lt_size
  -- the new conversion is one more link of the chain that ends at `o`
  have hstands : (s₁.program.splice side anchor d target).StandsFor n s₁.program.size o :=
    .cast hr.old Program.instrAt_splice_size (hext.standsFor hd.serves.stands)
  refine ⟨⟨⟨h.moves.tail hmove, ?_, ?_, h.warnings, ?_⟩, h.start,
    hinstr.trans h.instr_eq⟩, ⟨?_, ?_, ⟨hstands, ?_⟩, ?_, ?_⟩,
    fun _ _ _ h => h.splice hr ha⟩
  · intro x hx
    exact (Program.typeAt_splice_of_lt (Nat.lt_of_lt_of_le hx hsize)).trans (h.types x hx)
  · -- one conversion more is counted
    show s₁.casts + 1 = _
    rw [h.casts, Nat.add_assoc]
  · intro c hc hc'
    change c < (s₁.program.splice side anchor d target).size at hc'
    rw [Program.size_splice] at hc'
    rcases Nat.lt_succ_iff_lt_or_eq.1 hc' with hlt | rfl
    · -- an earlier conversion
      obtain ⟨o', ho', hstands', target', d', hi, hd'⟩ := h.fresh c hc hlt
      have hinput := hr.grounded c hlt d' (hi ▸ List.mem_singleton.2 rfl)
      refine ⟨o', ho', hext.standsFor hstands', target', d', ?_, ?_⟩
      · exact (Program.instrAt_splice_of_lt hlt).trans hi
      · intro hself
        change _ ∧ ((s₁.program.splice side anchor d target).typeAt c).width =
          ((s₁.program.splice side anchor d target).typeAt d').width
        rw [Program.typeAt_splice_of_lt hlt, Program.typeAt_splice_of_lt hinput]
        exact hd' hself
    · -- the new one
      have hmem := hd.mem_operands
      rw [h.instr_eq] at hmem
      refine ⟨o, hmem, hstands, target, d, Program.instrAt_splice_size, ?_⟩
      intro hself
      change _ ∧ ((s₁.program.splice side anchor d target).typeAt s₁.program.size).width =
        ((s₁.program.splice side anchor d target).typeAt d).width
      rw [Program.typeAt_splice_size, Program.typeAt_splice_of_lt hd.lt_size]
      exact ⟨hd.ne (h.instr_eq ▸ hself), rfl⟩
  · rw [hinstr]
    exact hd.mem
  · exact Program.size_splice ▸ Nat.lt_succ_self _
  · -- `o` was in time for `u` before the insertion, so `d` was, and so is the conversion
    intro ho
    have ho' := hext.of_dominates (hr.grounded u hr.lt_size o hd.mem) hr.lt_size ho
    exact hdom (hd.serves.dominates ho')
  · exact Program.typeAt_splice_size.trans (by rw [hd.type])
  · intro _
    exact Nat.ne_of_gt hr.lt_size

/-- A conversion of what is held, right before the instruction. -/
theorem insertCast_ends (h : Working n u s s₁ sets k losses) (hd : Held n u s₁.program o d t) :
    Ends excuse s₁ (insertCast .before u d target) fun r s₂ => ∃ e, r = .ok e ∧
      Brought n u s s₁ s₂ sets (k + 1) losses o e ⟨t.width, target⟩ := by
  have hr := h.ready
  rw [ends_of_runOn (runOn_insertCast_eq hr.coherent hr.lt_size hd.lt_size)]
  exact ⟨_, rfl, h.brought_splice hd hr.lt_size
    (.before target hr.lt_size hd.lt_size hd.mem_operands hd.serves)
    fun _ => hr.coherent.dominates_before hr.lt_size⟩

/-- **Bringing what is held** to an element type. -/
theorem convert_ends (h : Working n u s s₁ sets k losses) (hd : Held n u s₁.program o d t) :
    Ends excuse s₁ (convert u d t.elem target) fun r s₂ => ∃ e, r = .ok e ∧
      Brought n u s s₁ s₂ sets (k + t.elem.castsTo target) losses o e ⟨t.width, target⟩ := by
  unfold convert ElementType.castsTo
  split
  · next heq =>
    subst heq
    exact ⟨d, rfl, h.brought_self hd⟩
  · exact insertCast_ends h hd

/-- **Lowering an operand of a division**: a conversion follows the operand, unless its type is
accepted. -/
theorem coerce_ends {accepts : ElementType → Bool} (h : Working n u s s₁ sets k losses)
    (ho : o ∈ (s₁.program.instrAt u).typedOperands) :
    Ends excuse s₁ (coerce target accepts o) fun r s₂ => ∃ e, r = .ok e ∧
      Brought n u s s₁ s₂ sets (k + if accepts (s₁.program.typeAt o).elem then 0 else 1) losses o e
        ⟨(s₁.program.typeAt o).width,
          if accepts (s₁.program.typeAt o).elem then (s₁.program.typeAt o).elem else target⟩ := by
  have hr := h.ready
  have hd := hr.held ho
  unfold coerce
  -- an accepted operand stays as it is
  rw [ends_bind (runOn_elemOf_eq hd.lt_size)]
  split
  · exact ⟨o, rfl, h.brought_self hd⟩
  · rw [ends_of_runOn (runOn_insertCast_eq hr.coherent hd.lt_size hd.lt_size)]
    exact ⟨_, rfl, h.brought_splice hd hd.lt_size (.after target hd.lt_size hd.mem_operands)
      fun hdom => hr.coherent.dominates_after hdom⟩

end Checker

end TensorKernel
