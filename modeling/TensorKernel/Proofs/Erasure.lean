import TensorKernel.Proofs.Move

/-!
# What every sequence of moves keeps

A check is a sequence of moves, so what each kind of move keeps holds of the program that a check
leaves, whether it passed or not.

* `Program.Closed` — operands and nested blocks exist; `Program.Grounded` asks it only of the values
  that a check looks at;
* `Program.Erases` — **without the inserted conversions the program is the one that was given**:
  an original instruction is where it was, with its operands replaced at most by conversions of
  the operands it had;
* `Program.Dominated` — every operand is there in time for the instruction that reads it.

A move of one instruction leaves the other instructions alone (`Moves.instrAt_eq`), which is what
lets a rule be looked at on its own.
-/

namespace TensorKernel

/-- The storage nodes that the rule of an instruction asks for. -/
def Instr.nodes : Instr → List NodeId
  | globalPtr nodes _ => nodes
  | childPtr _ _ _ outputNode => [outputNode]
  | _ => []

theorem Redirected.nodes_eq {R : StmtId → StmtId → Prop} {i j : Instr} (h : Redirected R i j) :
    j.nodes = i.nodes := by
  cases h <;> rfl

/-- Every value that has to be typed is an old one or replaces an old one. -/
theorem Redirected.exists_typedOperand {R : StmtId → StmtId → Prop} {i j : Instr}
    (h : Redirected R i j) {d : StmtId} (hd : d ∈ j.typedOperands) :
    ∃ o ∈ i.typedOperands, d = o ∨ R d o := by
  have hoperand : ∀ d ∈ j.operands, ∃ o ∈ i.operands, d = o ∨ R d o := fun d hd =>
    h.exists_operand hd
  cases h with
  | same => exact ⟨d, hd, .inl rfl⟩
  -- of what is ever redirected all operands have to be typed
  | binary | select | localStore | globalStore | atomic => exact hoperand d hd

/-- No constant is replaced, and nothing is replaced by a constant. -/
theorem Redirected.isConst_eq {R : StmtId → StmtId → Prop} {i j : Instr} (h : Redirected R i j) :
    j.isConst = i.isConst := by
  cases h <;> rfl

namespace Program

variable {n : Nat} {p q r : Program} {u v x c d o : StmtId}

/-! ### Moves leave the rest alone -/

/-- Only the rule of an instruction changes what the instruction does. -/
theorem Move.instrAt_eq (h : p.Move n u q) (hx : x < p.size) (hxu : x ≠ u) :
    q.instrAt x = p.instrAt x := by
  cases h with
  | own | slot | bound => exact instrAt_retype
  | before | after => exact instrAt_splice_of_lt hx
  | redirect hu => rw [instrAt_rewrite hu, if_neg hxu]

/-- An instruction is only ever pointed at what stands for its operands. -/
theorem Move.redirected (h : p.Move n u q) (hp : p.Coherent) (hx : x < p.size) :
    Redirected (q.StandsFor n) (p.instrAt x) (q.instrAt x) := by
  cases h with
  | own | slot | bound => rw [instrAt_retype]; exact .same _
  | before | after => rw [instrAt_splice_of_lt hx]; exact .same _
  | redirect hu hi =>
    rw [instrAt_rewrite hu]
    split
    · next hxu =>
      subst hxu
      exact hi.mono fun _ _ hd => (hp.extends_rewrite hu hi).standsFor hd.stands
    · exact .same _

namespace Moves

theorem coherent (h : Moves n u p q) (hp : p.Coherent) : q.Coherent := by
  induction h with
  | refl => exact hp
  | tail _ hmove ih => exact hmove.coherent ih

theorem extension (h : Moves n u p q) (hp : p.Coherent) : p.Extends q := by
  induction h with
  | refl => exact .refl hp
  | tail hmoves hmove ih => exact ih.trans (hmove.extends (coherent hmoves hp))

theorem instrAt_eq (h : Moves n u p q) (hp : p.Coherent) (hx : x < p.size) (hxu : x ≠ u) :
    q.instrAt x = p.instrAt x := by
  induction h with
  | refl => rfl
  | tail hmoves hmove ih =>
    have hlt := Nat.lt_of_lt_of_le hx (extension hmoves hp).size_le
    -- the moves are all of `u`, and `x` is there all along
    rw [hmove.instrAt_eq hlt hxu, ih]

end Moves

/-! ### Nothing refers to what is not there -/

/-- Operands and nested blocks exist. -/
structure Closed (p : Program) : Prop where
  operands : ∀ x < p.size, ∀ o ∈ (p.instrAt x).operands, o < p.size
  blocks : ∀ x < p.size, ∀ b ∈ (p.instrAt x).blocks, b < p.blocks.size

/-- **Every value that a check looks at exists**: what has to be typed in the end, which leaves out
the pointers of storage operations and of child pointers. -/
def Grounded (p : Program) : Prop :=
  ∀ x < p.size, ∀ o ∈ (p.instrAt x).typedOperands, o < p.size

instance (p : Program) : Decidable p.Grounded :=
  inferInstanceAs (Decidable (∀ x < p.size, ∀ o ∈ (p.instrAt x).typedOperands, o < p.size))

theorem Closed.grounded (h : p.Closed) : p.Grounded := fun x hx o ho =>
  h.operands x hx o (Instr.typedOperands_subset _ ho)

/-- A move makes an instruction read only what exists, whichever of its operands are counted as
read. -/
private theorem Move.reads_lt {reads : Instr → List StmtId}
    (hcast : ∀ target d, reads (.unary (.cast target true) d) = [d])
    (hredirect : ∀ {R : StmtId → StmtId → Prop} {i j}, Redirected R i j → ∀ d ∈ reads j,
      ∃ o ∈ reads i, d = o ∨ R d o)
    (h : p.Move n u q) (hp : ∀ x < p.size, ∀ o ∈ reads (p.instrAt x), o < p.size) :
    ∀ x < q.size, ∀ o ∈ reads (q.instrAt x), o < q.size := by
  -- a conversion reads what it converts, and the others read what they read
  have hsplice : ∀ {side anchor d t}, d < p.size → ∀ x < (p.splice side anchor d t).size,
      ∀ o ∈ reads ((p.splice side anchor d t).instrAt x),
        o < (p.splice side anchor d t).size := by
    intro side anchor d t hd x hx o ho
    rw [size_splice] at hx ⊢
    rcases Nat.lt_succ_iff_lt_or_eq.1 hx with hx | rfl
    · rw [instrAt_splice_of_lt hx] at ho
      exact Nat.lt_succ_of_lt (hp x hx o ho)
    · rw [instrAt_splice_size, hcast] at ho
      obtain rfl : o = d := List.mem_singleton.1 ho
      exact Nat.lt_succ_of_lt hd
  cases h with
  | own | slot | bound =>
    -- a type refers to nothing
    intro x hx o ho
    rw [size_retype] at hx ⊢
    rw [instrAt_retype] at ho
    exact hp x hx o ho
  | before t _ hd => exact hsplice hd
  | after t hd => exact hsplice hd
  | @redirect i hu hi =>
    -- what serves as an operand exists, since the operand does
    intro x hx o ho
    rw [size_rewrite] at hx ⊢
    rw [instrAt_rewrite hu] at ho
    split at ho
    · obtain ⟨o', ho', rfl | hserves⟩ := hredirect hi o ho
      · exact hp u hu _ ho'
      · exact hserves.stands.lt_size (hp u hu _ ho')
    · exact hp x hx o ho

theorem Move.grounded (h : p.Move n u q) (hp : p.Grounded) : q.Grounded :=
  h.reads_lt (fun _ _ => rfl) (fun hi _ hd => hi.exists_typedOperand hd) hp

theorem Move.closed (h : p.Move n u q) (hp : p.Closed) : q.Closed where
  operands := h.reads_lt (fun _ _ => rfl) (fun hi _ hd => hi.exists_operand hd) hp.operands
  blocks x hx b hb := by
    cases h with
    | own | slot | bound =>
      -- where only types are set, and where a conversion is inserted, what is nested is as before
      rw [size_retype] at hx
      rw [instrAt_retype] at hb
      exact hp.blocks x hx b hb
    | before | after =>
      rw [size_splice] at hx
      rw [blocks_size_splice]
      rcases Nat.lt_succ_iff_lt_or_eq.1 hx with hx | rfl
      · rw [instrAt_splice_of_lt hx] at hb
        exact hp.blocks x hx b hb
      · -- the conversion itself nests nothing
        rw [instrAt_splice_size] at hb
        cases hb
    | @redirect i hu hi =>
      rw [size_rewrite] at hx
      rw [instrAt_rewrite hu] at hb
      split at hb
      · next hxu =>
        subst hxu
        -- a redirected instruction nests what it nested
        rw [hi.blocks_eq] at hb
        exact hp.blocks x hx b hb
      · exact hp.blocks x hx b hb

theorem Moves.grounded (h : Moves n u p q) (hp : p.Grounded) : q.Grounded := by
  induction h with
  | refl => exact hp
  | tail _ hmove ih => exact hmove.grounded ih

theorem Moves.closed (h : Moves n u p q) (hp : p.Closed) : q.Closed := by
  induction h with
  | refl => exact hp
  | tail _ hmove ih => exact hmove.closed ih

/-! ### Erasing the conversions -/

/-- **Without the conversions from number `p.size` on, `q` is `p`.** -/
structure Erases (p q : Program) : Prop where
  extends' : p.Extends q
  redirected : ∀ x < p.size, Redirected (q.StandsFor p.size) (p.instrAt x) (q.instrAt x)

namespace Erases

theorem refl (hp : p.Coherent) : p.Erases p := ⟨.refl hp, fun _ _ => .same _⟩

theorem move (h : p.Erases q) (hq : q.Coherent) (hmove : q.Move p.size u r) : p.Erases r where
  extends' := h.extends'.trans (hmove.extends hq)
  redirected x hx := by
    -- the chains that were there are still there, and the move makes them longer
    have hext := hmove.extends hq
    have hlt := Nat.lt_of_lt_of_le hx h.extends'.size_le
    exact ((h.redirected x hx).mono fun _ _ => hext.standsFor).trans (hmove.redirected hq hlt)
      fun _ _ _ hyz hzw => hyz.trans hzw

theorem moves (h : p.Erases q) (hq : q.Coherent) (hmoves : Moves p.size u q r) : p.Erases r := by
  induction hmoves with
  | refl => exact h
  | tail hmoves hmove ih => exact ih.move (Moves.coherent hmoves hq) hmove

/-- What is asked of the storage was asked before. -/
theorem nodes (h : p.Erases q) {size : Nat}
    (hp : ∀ x < p.size, ∀ k ∈ (p.instrAt x).nodes, k < size) (hx : x < q.size) :
    ∀ k ∈ (q.instrAt x).nodes, k < size := by
  -- redirecting replaces no storage node, and conversions have none
  rcases Nat.lt_or_ge x p.size with hlt | hge
  · rw [(h.redirected x hlt).nodes_eq]
    exact hp x hlt
  · obtain ⟨_, _, hi⟩ := Instr.isValueCast_iff.1 (h.extends'.fresh x hge hx)
    rw [hi]
    exact fun k hk => nomatch hk

/-- Among the original instructions, `x` reads none that it did not read before. -/
theorem operand_of_lt (h : p.Erases q) (hx : x < p.size) {d : StmtId}
    (hd : d ∈ (q.instrAt x).operands) (hlt : d < p.size) : d ∈ (p.instrAt x).operands := by
  -- a replaced operand is a conversion, and those are not original
  obtain ⟨o, ho, rfl | hstands⟩ := (h.redirected x hx).exists_operand hd
  · exact ho
  · obtain rfl : d = o := hstands.eq_of_lt hlt
    exact ho

end Erases

/-! ### Operands in time -/

/-- Every operand dominates the instruction that reads it. -/
def Dominated (p : Program) : Prop :=
  ∀ x < p.size, ∀ o ∈ (p.instrAt x).operands, p.Dominates o x

/-- An insertion keeps operands in time, if what it converts is in time for the conversion. -/
private theorem dominated_splice {side : Side} {anchor : StmtId} {t : ElementType}
    (hp : p.Coherent) (ha : anchor < p.size) (hdom : p.Dominated)
    (hd : (p.splice side anchor d t).Dominates d p.size) :
    (p.splice side anchor d t).Dominated := by
  intro x hx o ho
  rw [size_splice] at hx
  rcases Nat.lt_succ_iff_lt_or_eq.1 hx with hx | rfl
  · rw [instrAt_splice_of_lt hx] at ho
    exact (hp.extends_splice side d t ha).dominates hp (hdom x hx o ho)
  · rw [instrAt_splice_size] at ho
    obtain rfl : o = d := List.mem_singleton.1 ho
    exact hd

theorem Move.dominated (h : p.Move n u q) (hp : p.Coherent) (hdom : p.Dominated) :
    q.Dominated := by
  have hext := h.extends hp
  cases h with
  | own | slot | bound =>
    intro x hx o ho
    rw [size_retype] at hx
    rw [instrAt_retype] at ho
    exact hext.dominates hp (hdom x hx o ho)
  | before t hu hd ho hserves =>
    -- `d` serves `u`, so it is in time for `u` and for what is put right before `u`
    have hdu := hserves.dominates (hdom u hu _ ho)
    exact dominated_splice hp hu hdom (hp.dominates_input_before hu hdu)
  | after t hd ho => exact dominated_splice hp hd hdom (hp.dominates_input_after hd)
  | redirect hu hi =>
    intro x hx o ho
    rw [size_rewrite] at hx
    rw [instrAt_rewrite hu] at ho
    -- the move changes no place, so all is said about the program before it
    refine hext.dominates hp ?_
    split at ho
    · next hxu =>
      subst hxu
      obtain ⟨o', ho', rfl | hserves⟩ := hi.exists_operand ho
      · exact hdom x hx _ ho'
      · exact hserves.dominates (hdom x hx _ ho')
    · exact hdom x hx o ho

end Program

end TensorKernel
