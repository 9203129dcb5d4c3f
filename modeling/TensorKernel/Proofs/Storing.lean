import TensorKernel.Proofs.Refusals

/-!
# What a store leaves behind if it passes

A store to a local slot, a store through a global pointer and an atomic operation all write a value
to a place, and all three bring the value to the element type of the place. They go about it in
different orders: a store is typed, converted, pointed at the conversion and then reported, while an
atomic operation reads both types first and is reported before it is converted. What they leave is
the same (`Written`), and so one account of the state that is left serves all of them
(`written_of_passes`).

The place, the value and the instruction itself may be one and the same. A store that is its own
value has been given the type of its place when the value is looked at, and so needs no conversion;
an atomic operation has not, and may convert its own result.

A local slot of which nothing is known is the exception: it takes over the type of the value, and
nothing is converted (`checkLocalStore_passes`).
-/

namespace TensorKernel

namespace Program

variable {p : Program} {u value x : StmtId} {b : BlockId} {own : VectorType} {i : Instr}

/-- An instruction gets a type, and is pointed at a conversion of a value to the element type of
that, which is put right before it. -/
def divert (p : Program) (u value : StmtId) (own : VectorType) (i : Instr) : Program :=
  ((p.retype u own).splice .before u value own.elem).rewrite u i

@[simp] theorem size_divert : (p.divert u value own i).size = p.size + 1 := by
  rw [divert, size_rewrite, size_splice, size_retype]

/-- Types are those that were there when the conversion was inserted. -/
theorem typeAt_divert_of_lt (hx : x < p.size) :
    (p.divert u value own i).typeAt x = (p.retype u own).typeAt x := by
  rw [divert, typeAt_rewrite, typeAt_splice_of_lt (by rwa [size_retype])]

theorem typeAt_divert_size :
    (p.divert u value own i).typeAt p.size =
      ⟨((p.retype u own).typeAt value).width, own.elem⟩ := by
  have hsize : p.size = (p.retype u own).size := size_retype.symm
  rw [divert, typeAt_rewrite, hsize, typeAt_splice_size]

theorem stmtAt_divert_of_ne (hx : x < p.size) (hxu : x ≠ u) :
    (p.divert u value own i).stmtAt x = p.stmtAt x := by
  rw [divert, stmtAt_rewrite, if_neg fun h => hxu h.1, stmtAt_splice_of_lt (by rwa [size_retype]),
    stmtAt_retype, if_neg fun h => hxu h.1]

theorem instrAt_divert (value : StmtId) (own : VectorType) (i : Instr) (hu : u < p.size) :
    (p.divert u value own i).instrAt u = i ∧
      (p.divert u value own i).instrAt p.size = .unary (.cast own.elem true) value := by
  have hlt : u < ((p.retype u own).splice .before u value own.elem).size := by
    rw [size_splice, size_retype]
    exact Nat.lt_succ_of_lt hu
  have hsize : p.size = (p.retype u own).size := size_retype.symm
  rw [divert, instrAt_rewrite hlt, instrAt_rewrite hlt, if_pos rfl, if_neg (Nat.ne_of_gt hu), hsize,
    instrAt_splice_size]
  exact ⟨rfl, rfl⟩

theorem listAt_divert_of_ne (hb : b ≠ p.homeAt u) :
    (p.divert u value own i).listAt b = p.listAt b := by
  rw [divert, listAt_rewrite, listAt_splice_of_ne (by rwa [homeAt_retype]), listAt_retype]

/-- The conversion stands right before the instruction. -/
theorem Coherent.listAt_divert (hp : p.Coherent) (hu : u < p.size) :
    ∃ front back, p.listAt (p.homeAt u) = front ++ u :: back ∧
      (p.divert u value own i).listAt (p.homeAt u) = front ++ p.size :: u :: back := by
  have hsize : (p.retype u own).size = p.size := size_retype
  have hp' : (p.retype u own).Coherent := hp.retype
  have hlist := hp'.listAt_splice .before value own.elem (hsize.symm ▸ hu)
  rwa [homeAt_retype, hsize] at hlist

end Program

namespace Checker

variable {excuse needs : Prop} {config : Config} {make : StmtId → Instr} {s left : CheckState}
  {u place value : StmtId} {own : VectorType} {op : AtomicOp}

/-! ### The state that is left -/

/-- **The value is written as it is**: no instruction is new, and none stands elsewhere. -/
structure Direct (make : StmtId → Instr) (u place value : StmtId) (s left : CheckState) : Prop where
  operand : left.program.instrAt u = make value
  elem : (left.program.typeAt value).elem = (left.program.typeAt place).elem
  size : left.program.size = s.program.size
  blocks : left.program.blocks = s.program.blocks
  casts : left.casts = s.casts
  warnings : left.warnings = s.warnings

/-- **The value is written through a conversion**, which is the one new instruction. It reads the
value that was there, has its width and the element type of the place, and stands right before the
instruction that writes it. -/
structure Through (make : StmtId → Instr) (u place value : StmtId) (s left : CheckState) :
    Prop where
  operand : left.program.instrAt u = make s.program.size
  elem : (left.program.typeAt s.program.size).elem = (left.program.typeAt place).elem
  width : (left.program.typeAt s.program.size).width = (s.program.typeAt value).width
  conversion : left.program.instrAt s.program.size =
    .unary (.cast (left.program.typeAt place).elem true) value
  size : left.program.size = s.program.size + 1
  placed : ∃ front back, s.program.listAt (s.program.homeAt u) = front ++ u :: back ∧
    left.program.listAt (s.program.homeAt u) = front ++ s.program.size :: u :: back
  others : ∀ b ≠ s.program.homeAt u, left.program.listAt b = s.program.listAt b
  casts : left.casts = s.casts + 1

/-- **What is left of an instruction that writes a value to a place**, whether a conversion was
needed or not. Instructions other than the two are what they were, and where they were. -/
structure Written (needs : Prop) (make : StmtId → Instr) (u place value : StmtId)
    (s left : CheckState) : Prop where
  through : needs → Through make u place value s left
  direct : ¬ needs → Direct make u place value s left
  rest : ∀ x < s.program.size, x ≠ u → x ≠ place → left.program.stmtAt x = s.program.stmtAt x

/-- How an instruction passes that writes to a place with a type: it gets the type `own`, and the
value is converted to the element type of that if it has to be. -/
def Passes (needs : Prop) (make : StmtId → Instr) (u value : StmtId) (own : VectorType)
    (s left : CheckState) : Prop :=
  (¬ needs → left = { s with program := s.program.retype u own }) ∧
    (needs → ∃ warnings, left =
      { program := s.program.divert u value own (make s.program.size), warnings,
        casts := s.casts + 1 })

/-- **The account of the state that is left**, for all ways to write to a place with a type. The
place keeps its type, even if it is the instruction that writes to it. -/
theorem written_of_passes (hs : s.program.Coherent) (hu : u < s.program.size)
    (hplace : place < s.program.size) (hi : s.program.instrAt u = make value)
    (hown : own.elem = (s.program.typeAt place).elem) (hself : place = u → own = s.program.typeAt u)
    (hneeds : ¬ needs → value = u ∨ (s.program.typeAt value).elem = own.elem)
    (hwidth : needs → value = u → own.width = (s.program.typeAt u).width)
    (h : Passes needs make u value own s left) :
    Written needs make u place value s left ∧ left.program.typeAt u = own ∧
      left.program.typeAt place = s.program.typeAt place := by
  have htype : ∀ x, (s.program.retype u own).typeAt x = if x = u then own else s.program.typeAt x :=
    fun x => Program.typeAt_retype hu
  -- the place keeps its type, even where it is the instruction itself
  have hplaced : (s.program.retype u own).typeAt place = s.program.typeAt place := by
    rw [htype]
    split
    · next heq => rw [hself heq, heq]
    · rfl
  -- either the value is diverted through a conversion, or only the type is set
  by_cases hn : needs
  · obtain ⟨warnings, rfl⟩ := h.2 hn
    obtain ⟨hoperand, hconversion⟩ := Program.instrAt_divert value own (make s.program.size) hu
    have hplace' : (s.program.divert u value own (make s.program.size)).typeAt place =
        s.program.typeAt place := (Program.typeAt_divert_of_lt hplace).trans hplaced
    refine ⟨⟨fun _ => ?_, fun hno => absurd hn hno, ?_⟩, ?_, hplace'⟩
    · refine ⟨hoperand, ?_, ?_, ?_, Program.size_divert, hs.listAt_divert hu, ?_, rfl⟩
      · dsimp only
        rw [Program.typeAt_divert_size, hplace', hown]
      · dsimp only
        rw [Program.typeAt_divert_size, htype]
        split
        · next heq => rw [hwidth hn heq, heq]
        · rfl
      · dsimp only
        rw [hconversion, hplace', hown]
      · exact fun b hb => Program.listAt_divert_of_ne hb
    · exact fun x hx hxu _ => Program.stmtAt_divert_of_ne hx hxu
    · exact (Program.typeAt_divert_of_lt hu).trans ((htype u).trans (if_pos rfl))
  · obtain rfl := h.1 hn
    refine ⟨⟨fun hyes => absurd hyes hn, fun _ => ?_, ?_⟩, ?_, hplaced⟩
    · refine ⟨Program.instrAt_retype.trans hi, ?_, Program.size_retype, rfl, rfl, rfl⟩
      dsimp only
      rw [hplaced, htype, ← hown]
      split
      · rfl
      · next hne => rw [(hneeds hn).resolve_left hne]
    · intro x _ hxu _
      dsimp only
      rw [Program.stmtAt_retype, if_neg fun h => hxu h.1]
    · exact (htype u).trans (if_pos rfl)

/-! ### The rules -/

/-- A report leaves the program alone, and what was counted. -/
theorem reportLoss_leaves {loss : PrecisionLoss} (hu : u < s.program.size) :
    Ends excuse s (reportLoss config u loss) fun _ left =>
      ∃ warnings, left = { s with warnings } := by
  unfold reportLoss
  split
  · exact ⟨s.warnings, rfl⟩
  · rw [ends_of_runOn (runOn_warn_eq hu)]
    exact ⟨_, rfl⟩

/-- **A store** to a place with a type. If it is its own value, it has the type of the place by the
time that is looked at. -/
theorem store_passes (make : StmtId → Instr) {access : Access} (hs : s.program.Coherent)
    (hu : u < s.program.size) (hvalue : value < s.program.size) :
    Ends excuse s (do
      setType u own
      let valueElem ← elemOf value
      if valueElem ≠ own.elem then
        let cast ← insertCast .before u value own.elem
        setInstr u (make cast)
      if ElementType.narrows own.elem valueElem then
        reportLoss config u ⟨access, own.elem, valueElem⟩)
      fun r left => r = .ok () →
        Passes (value ≠ u ∧ (s.program.typeAt value).elem ≠ own.elem) make u value own s left := by
  have hsize : (s.program.retype u own).size = s.program.size := Program.size_retype
  rw [ends_bind (runOn_setType_eq hu), ends_bind (runOn_elemOf_eq (hsize.symm ▸ hvalue))]
  dsimp only
  rw [Program.typeAt_retype hu]
  by_cases hneeds : value ≠ u ∧ (s.program.typeAt value).elem ≠ own.elem
  · rw [if_neg hneeds.1, if_pos hneeds.2, ends_bind (runOn_insertCast_eq hs.retype (hsize.symm ▸ hu)
      (hsize.symm ▸ hvalue)), ends_bind (runOn_setInstr_eq (by
        rw [Program.size_splice, hsize]; exact Nat.lt_succ_of_lt hu)), hsize]
    -- whatever is reported, the program is the one with the conversion
    have hpasses : ∀ warnings, Passes (value ≠ u ∧ (s.program.typeAt value).elem ≠ own.elem) make u
        value own s ⟨s.program.divert u value own (make s.program.size), warnings, s.casts + 1⟩ :=
      fun warnings => ⟨fun hno => absurd hneeds hno, fun _ => ⟨warnings, rfl⟩⟩
    split
    · refine (reportLoss_leaves ?_).mono ?_
      · change u < (s.program.divert u value own (make s.program.size)).size
        rw [Program.size_divert]
        exact Nat.lt_succ_of_lt hu
      · rintro _ _ ⟨warnings, rfl⟩ -
        exact hpasses warnings
    · exact fun _ => hpasses _
  · -- the value has the element type of the place, and such a conversion is never reported
    have helem : (if value = u then own else s.program.typeAt value).elem = own.elem := by
      split
      · rfl
      · next hne => exact not_not.1 fun h => hneeds ⟨hne, h⟩
    rw [helem, if_neg (not_not.2 rfl), ElementType.narrows_self]
    exact fun _ => ⟨fun _ => rfl, fun h => absurd h hneeds⟩

/-- **A store to a local slot.** A slot of which nothing is known takes over the type of the
value. -/
theorem checkLocalStore_passes (config : Config) (hs : s.program.Coherent)
    (hu : u < s.program.size) (hplace : place < s.program.size) (hvalue : value < s.program.size) :
    Ends excuse s (checkLocalStore config u place value) fun r left => r = .ok () →
      (s.program.typeAt place).isUnknown = true ∧ left =
        { s with program :=
            (s.program.retype place (s.program.typeAt value)).retype u (s.program.typeAt value) } ∨
      (s.program.typeAt place).isUnknown = false ∧
        Passes (value ≠ u ∧ (s.program.typeAt value).elem ≠ (s.program.typeAt place).elem)
          (.localStore place) u value (s.program.typeAt place) s left := by
  unfold checkLocalStore
  rw [ends_bind (runOn_typeOf_eq hplace)]
  split
  · next hunknown =>
    -- an untyped slot adopts the type of the value
    rw [ends_bind (runOn_typeOf_eq hvalue), ends_bind (runOn_setType_eq hplace),
      ends_of_runOn (runOn_setType_eq (Program.size_retype.symm ▸ hu))]
    exact fun _ => .inl ⟨hunknown, rfl⟩
  · next hknown =>
    refine (store_passes (.localStore place) hs hu hvalue).mono ?_
    exact fun _ _ h hok => .inr ⟨Bool.eq_false_iff.2 hknown, h hok⟩

theorem checkGlobalStore_passes (config : Config) (hs : s.program.Coherent)
    (hu : u < s.program.size) (hplace : place < s.program.size) (hvalue : value < s.program.size) :
    Ends excuse s (checkGlobalStore config u place value) fun r left => r = .ok () →
      Passes (value ≠ u ∧ (s.program.typeAt value).elem ≠ (s.program.typeAt place).elem)
        (.globalStore place) u value (s.program.typeAt place) s left := by
  unfold checkGlobalStore
  rw [ends_bind (runOn_typeOf_eq hplace)]
  exact store_passes (.globalStore place) hs hu hvalue

/-- **An atomic operation.** It reads the types of place and value before it is typed. -/
theorem checkAtomic_passes (config : Config) (op : AtomicOp) (hs : s.program.Coherent)
    (hu : u < s.program.size) (hplace : place < s.program.size) (hvalue : value < s.program.size) :
    Ends excuse s (checkAtomic config u op place value) fun r left => r = .ok () →
      (s.program.typeAt u).width = 1 ∧
      Passes ((s.program.typeAt value).elem ≠ (s.program.typeAt place).elem) (.atomic op place) u
        value (.scalar (s.program.typeAt place).elem) s left := by
  unfold checkAtomic requireScalar
  rw [bind_assoc, ends_bind (runOn_typeOf_eq hu)]
  dsimp only
  split
  · -- an access of several lanes is refused
    rw [ends_stopAt_bind]
    exact fun h => nomatch h
  next hwidth =>
  rw [pure_bind, ends_bind (runOn_elemOf_eq hplace), ends_bind (runOn_elemOf_eq hvalue),
    ends_bind (runOn_setType_eq hu)]
  have hsize : ∀ t, (s.program.retype u t).size = s.program.size := fun _ => Program.size_retype
  split
  · next hneeds =>
    -- the loss is reported before anything is converted
    refine (reportLoss_leaves ((hsize _).symm ▸ hu)).bind ?_ fun _ _ _ h => nomatch h
    rintro _ _ ⟨warnings, rfl⟩
    rw [ends_bind (runOn_insertCast_eq hs.retype ((hsize _).symm ▸ hu) ((hsize _).symm ▸ hvalue)),
      ends_of_runOn (runOn_setInstr_eq (by
        rw [Program.size_splice, hsize]; exact Nat.lt_succ_of_lt hu)), hsize]
    exact fun _ => ⟨not_not.1 hwidth, fun hno => absurd hneeds hno, fun _ => ⟨warnings, rfl⟩⟩
  · next hsame =>
    exact fun _ => ⟨not_not.1 hwidth, fun _ => rfl, fun h => absurd h hsame⟩

/-! ### All ways to write a value -/

/-- A store to a place with a type has the type of the place. -/
private theorem written_of_store (hs : s.program.Coherent) (hu : u < s.program.size)
    (hplace : place < s.program.size) (hi : s.program.instrAt u = make value)
    (h : Passes (value ≠ u ∧ (s.program.typeAt value).elem ≠ (s.program.typeAt place).elem) make u
      value (s.program.typeAt place) s left) :
    Written (value ≠ u ∧ (s.program.typeAt value).elem ≠ (s.program.typeAt place).elem) make u place
        value s left ∧
      left.program.typeAt u = s.program.typeAt place ∧
      left.program.typeAt place = s.program.typeAt place := by
  refine written_of_passes hs hu hplace hi rfl (fun heq => by rw [heq]) ?_ ?_ h
  · intro hno
    -- a store that is its own value needs no conversion
    by_cases heq : value = u
    · exact .inl heq
    · exact .inr (not_not.1 fun hne => hno ⟨heq, hne⟩)
  · exact fun hneeds heq => absurd heq hneeds.1

/-- A slot of which nothing is known takes over the type of the value, and the value is written as
it is. -/
private theorem written_of_adopts (hu : u < s.program.size) (hplace : place < s.program.size)
    (hi : s.program.instrAt u = make value) (hno : ¬ needs) (hleft : left =
      { s with program :=
          (s.program.retype place (s.program.typeAt value)).retype u (s.program.typeAt value) }) :
    Written needs make u place value s left ∧
      left.program.typeAt u = s.program.typeAt value ∧
      left.program.typeAt place = s.program.typeAt value := by
  subst hleft
  have htype : ∀ x, ((s.program.retype place (s.program.typeAt value)).retype u
      (s.program.typeAt value)).typeAt x =
      if x = u ∨ x = place then s.program.typeAt value else s.program.typeAt x := by
    intro x
    rw [Program.typeAt_retype (Program.size_retype.symm ▸ hu), Program.typeAt_retype hplace]
    split <;> split <;> simp_all
  have hplaced := (htype place).trans (if_pos (.inr rfl))
  refine ⟨⟨fun hyes => absurd hyes hno, fun _ => ?_, ?_⟩, (htype u).trans (if_pos (.inl rfl)),
    hplaced⟩
  · refine ⟨?_, ?_, ?_, rfl, rfl, rfl⟩
    · exact (Program.instrAt_retype.trans Program.instrAt_retype).trans hi
    · -- the value has kept its type, whatever else it is
      dsimp only
      rw [hplaced, htype]
      split <;> rfl
    · exact Program.size_retype.trans Program.size_retype
  · intro x _ hxu hxplace
    dsimp only
    rw [Program.stmtAt_retype, if_neg fun h => hxu h.1, Program.stmtAt_retype,
      if_neg fun h => hxplace h.1]

/-- **What is written has the element type of its place.** The rules of the three instructions that
write a value come to an end, whether place, value and instruction are different or not. If the rule
passes, the value is of the place's element type, if need be by way of a conversion, the one new
instruction (`Written`). A conversion is needed if the element types differ, except that a store
which is its own value has the type of its place by then, and that a local slot of which nothing is
known takes over the whole type of the value instead, with nothing converted or warned of. No other
place changes its type. A store has the type of its place, and an atomic operation is a scalar of
its element type. -/
theorem written_value_matches (config : Config) (hs : s.program.Coherent)
    (hu : u < s.program.size) (hplace : place < s.program.size) (hvalue : value < s.program.size) :
    (s.program.instrAt u = .localStore place value →
      ∃ answer left, runOn (checkLocalStore config u place value) s = .ok (answer, left) ∧
        (answer = .ok () →
          Written ((s.program.typeAt place).isUnknown = false ∧ value ≠ u ∧
            (s.program.typeAt value).elem ≠ (s.program.typeAt place).elem)
            (.localStore place) u place value s left ∧
          left.program.typeAt u = left.program.typeAt place ∧
          left.program.typeAt place =
            if (s.program.typeAt place).isUnknown then s.program.typeAt value
            else s.program.typeAt place)) ∧
    (s.program.instrAt u = .globalStore place value →
      ∃ answer left, runOn (checkGlobalStore config u place value) s = .ok (answer, left) ∧
        (answer = .ok () →
          Written (value ≠ u ∧ (s.program.typeAt value).elem ≠ (s.program.typeAt place).elem)
            (.globalStore place) u place value s left ∧
          left.program.typeAt u = left.program.typeAt place ∧
          left.program.typeAt place = s.program.typeAt place)) ∧
    ∀ op, s.program.instrAt u = .atomic op place value →
      ∃ answer left, runOn (checkAtomic config u op place value) s = .ok (answer, left) ∧
        (answer = .ok () →
          Written ((s.program.typeAt value).elem ≠ (s.program.typeAt place).elem)
            (.atomic op place) u place value s left ∧
          left.program.typeAt u = .scalar (left.program.typeAt place).elem ∧
          left.program.typeAt place = s.program.typeAt place) := by
  refine ⟨?_, ?_, ?_⟩
  · intro hi
    obtain ⟨answer, left, hrun, hpasses⟩ :=
      (checkLocalStore_passes config hs hu hplace hvalue).exists_runOn
    refine ⟨answer, left, hrun, fun hok => ?_⟩
    obtain ⟨hunknown, hleft⟩ | ⟨hknown, hpasses⟩ := hpasses hok
    · -- what is adopted needs no conversion
      have hno : ¬ ((s.program.typeAt place).isUnknown = false ∧ value ≠ u ∧
          (s.program.typeAt value).elem ≠ (s.program.typeAt place).elem) :=
        fun h => Bool.false_ne_true (h.1.symm.trans hunknown)
      obtain ⟨hwritten, hown, hplaced⟩ := written_of_adopts hu hplace hi hno hleft
      exact ⟨hwritten, hown.trans hplaced.symm, hplaced.trans (if_pos hunknown).symm⟩
    · have hneeds : ((s.program.typeAt place).isUnknown = false ∧ value ≠ u ∧
          (s.program.typeAt value).elem ≠ (s.program.typeAt place).elem) =
          (value ≠ u ∧ (s.program.typeAt value).elem ≠ (s.program.typeAt place).elem) :=
        propext (and_iff_right hknown)
      obtain ⟨hwritten, hown, hplaced⟩ := written_of_store hs hu hplace hi hpasses
      rw [hneeds, if_neg (Bool.eq_false_iff.1 hknown)]
      exact ⟨hwritten, hown.trans hplaced.symm, hplaced⟩
  · intro hi
    obtain ⟨answer, left, hrun, hpasses⟩ :=
      (checkGlobalStore_passes config hs hu hplace hvalue).exists_runOn
    refine ⟨answer, left, hrun, fun hok => ?_⟩
    obtain ⟨hwritten, hown, hplaced⟩ := written_of_store hs hu hplace hi (hpasses hok)
    exact ⟨hwritten, hown.trans hplaced.symm, hplaced⟩
  · intro op hi
    obtain ⟨answer, left, hrun, hpasses⟩ :=
      (checkAtomic_passes config op hs hu hplace hvalue).exists_runOn
    refine ⟨answer, left, hrun, fun hok => ?_⟩
    -- the operation has been found one lane wide, and so is typed like a scalar
    obtain ⟨hwidth, hpasses⟩ := hpasses hok
    obtain ⟨hwritten, hown, hplaced⟩ := written_of_passes hs hu hplace hi (VectorType.scalar_elem _)
      (fun heq => by rw [heq, VectorType.scalar, ← hwidth]) (fun hno => .inr (not_not.1 hno))
      (fun _ _ => hwidth.symm) hpasses
    exact ⟨hwritten, by rw [hown, hplaced], hplaced⟩

/-- A double is stored to a slot for single precision. -/
def roundingSteps : List Step :=
  [.emit .alloca, .typed 0 (.scalar .f32), .emit (.const (.f64 0)), .emit (.localStore 0 1)]

theorem written_value_matches_slot :
    ∃ p ids left, Program.build roundingSteps = .ok (p, ids) ∧
      runOn (checkLocalStore {} 2 0 1) { program := p } = .ok (.ok (), left) ∧
      Through (.localStore 0) 2 0 1 { program := p } left ∧
      left.program.typeAt 2 = .scalar .f32 ∧ left.program.typeAt 0 = .scalar .f32 := by
  -- all that is asked of the program is evaluated with the run
  have hmade : (Program.build roundingSteps).bind (fun made =>
      (runOn (checkLocalStore {} 2 0 1) { program := made.1 }).map fun run =>
        (run.1, made.1.size, made.1.instrAt 2, made.1.typeAt 0, made.1.typeAt 1)) =
      .ok (.ok (), 3, .localStore 0 1, .scalar .f32, .scalar .f64) := by decide +kernel
  obtain ⟨⟨p, ids⟩, hbuild, hmade⟩ := Fault.bind_eq_ok_iff.1 hmade
  cases hrun : runOn (checkLocalStore {} 2 0 1) { program := p } with
  | error fault => rw [hrun] at hmade; cases hmade
  | ok run =>
    rw [hrun] at hmade
    obtain ⟨hok, hsize, hi, hslot, hvalue⟩ : run.1 = .ok () ∧ p.size = 3 ∧
        p.instrAt 2 = .localStore 0 1 ∧ p.typeAt 0 = .scalar .f32 ∧ p.typeAt 1 = .scalar .f64 := by
      simpa using Except.ok.inj hmade
    have hlt : ∀ x < 3, x < p.size := fun x hx => hsize ▸ hx
    obtain ⟨hstore, -⟩ := written_value_matches {} (s := { program := p })
      (Program.build_coherent hbuild) (hlt 2 (by decide)) (hlt 0 (by decide)) (hlt 1 (by decide))
    obtain ⟨answer, left, hrun', hleft⟩ := hstore hi
    obtain rfl : run = (answer, left) := Except.ok.inj (hrun.symm.trans hrun')
    obtain rfl : answer = .ok () := hok
    obtain ⟨hwritten, hown, hplaced⟩ := hleft rfl
    dsimp only at hwritten hplaced
    rw [hslot] at hplaced
    have hneeds : (p.typeAt 0).isUnknown = false ∧ 1 ≠ 2 ∧
        (p.typeAt 1).elem ≠ (p.typeAt 0).elem := by
      rw [hslot, hvalue]
      decide
    exact ⟨p, ids, left, hbuild, hrun, hwritten.through hneeds, hown.trans hplaced, hplaced⟩

end Checker

end TensorKernel
