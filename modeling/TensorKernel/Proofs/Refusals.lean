import TensorKernel.Proofs.Combining
import TensorKernel.Proofs.MemoryRules
import TensorKernel.Proofs.Parallel

/-!
# What a refused instruction leaves behind

A program that is refused is shown as far as it was checked, and may be checked again. How much of
the last rule is in it depends on the instruction (`Remains`). Most rules look at everything before
they change anything, and leave what they found (`LooksFirst`). A global pointer and an atomic
operation are typed first. A store that is denied has its conversion already, and a binary operator
compares its operands only when they have been brought to a common type (`Combines`).

`rule_leaves` says it of every rule that stops. Whatever the instruction, no other instruction that
was there changes its type.
-/

namespace TensorKernel.Checker

open Program (StandsFor)

variable {α β : Type} {config : Config} {ctx : CheckContext} {u value lhs rhs : StmtId}
  {op : BinaryOp} {i : Instr} {s left : CheckState} {fatal : Fatal}

/-! ### Steps that look and steps that go on -/

/-- A step that leaves the state alone, however it ends. -/
def Asks (step : Checker α) : Prop := ∀ s, Ends True s step fun _ left => left = s

/-- A step that never stops the check. -/
def GoesOn (step : Checker α) : Prop := ∀ s, Ends True s step fun r _ => ∃ a, r = .ok a

/-- **A step that looks first**: if it stops the check, it has changed nothing. -/
def LooksFirst (step : Checker α) : Prop :=
  ∀ s, Ends True s step fun r left => ∀ fatal, r = .error fatal → left = s

section Steps

variable {step : Checker α} {next : α → Checker β} {c : Prop} [Decidable c]

theorem asks_pure (a : α) : Asks (pure a) := fun _ => rfl

theorem asks_stopAt (error : TypeError) : Asks (stopAt (α := α) u error) := fun _ => rfl

theorem asks_lookUp (ask : Program → Except Fault α) : Asks (lookUp ask) := by
  intro s
  unfold Ends
  rw [runOn_lookUp]
  cases ask s.program <;> trivial

theorem Asks.bind (h : Asks step) (hnext : ∀ a, Asks (next a)) : Asks (step >>= next) := by
  intro s
  refine (h s).bind ?_ fun _ _ hleft => hleft
  rintro a left rfl
  exact hnext a left

theorem asks_elemOf (x : StmtId) : Asks (elemOf x) :=
  (asks_lookUp _).bind fun _ => asks_pure _

theorem asks_requireScalar (access : Access) : Asks (requireScalar u access) := by
  refine (asks_lookUp _).bind fun type => ?_
  dsimp only
  split
  · exact asks_stopAt _
  · exact asks_pure _

theorem goesOn_pure (a : α) : GoesOn (pure a) := fun _ => ⟨a, rfl⟩

theorem goesOn_lookUp (ask : Program → Except Fault α) : GoesOn (lookUp ask) := by
  intro s
  unfold Ends
  rw [runOn_lookUp]
  cases ask s.program with
  | error fault => trivial
  | ok a => exact ⟨a, rfl⟩

theorem goesOn_update (change : Program → Except Fault (Program × α)) : GoesOn (update change) := by
  intro s
  unfold Ends
  rw [runOn_update]
  cases change s.program with
  | error fault => trivial
  | ok made => exact ⟨made.2, rfl⟩

theorem goesOn_edit (change : Program → Except Fault Program) : GoesOn (edit change) :=
  goesOn_update _

theorem goesOn_setType (x : StmtId) (t : VectorType) : GoesOn (setType x t) := goesOn_edit _

theorem goesOn_setElem (x : StmtId) (t : ElementType) : GoesOn (setElem x t) := goesOn_edit _

theorem goesOn_setInstr (x : StmtId) (i : Instr) : GoesOn (setInstr x i) := goesOn_edit _

theorem GoesOn.bind (h : GoesOn step) (hnext : ∀ a, GoesOn (next a)) : GoesOn (step >>= next) := by
  intro s
  refine (h s).bind ?_ ?_
  · rintro a left -
    exact hnext a left
  · rintro _ _ ⟨_, ⟨⟩⟩

theorem goesOn_insertCast (side : Program.Side) (anchor input : StmtId) (target : ElementType) :
    GoesOn (insertCast side anchor input target) := by
  refine (goesOn_lookUp _).bind fun type => (goesOn_lookUp _).bind fun near => ?_
  refine (goesOn_update _).bind fun cast => (goesOn_setType _ _).bind fun _ => ?_
  exact GoesOn.bind (fun _ => ⟨(), rfl⟩) fun _ => goesOn_pure cast

theorem goesOn_convert (d : StmtId) (elem target : ElementType) :
    GoesOn (convert u d elem target) := by
  unfold convert
  split
  · exact goesOn_pure d
  · exact goesOn_insertCast _ _ _ _

theorem goesOn_warn (x : StmtId) (loss : PrecisionLoss) : GoesOn (warn x loss) :=
  (goesOn_lookUp _).bind fun _ => fun _ => ⟨(), rfl⟩

/-- What goes on leaves nothing to be said of how it stops. -/
theorem GoesOn.ends {post : Fatal → CheckState → Prop} (h : GoesOn step) :
    Ends True s step fun r left => ∀ fatal, r = .error fatal → post fatal left :=
  (h s).mono fun _ _ ⟨_, ha⟩ _ hfatal => nomatch ha.symm.trans hfatal

theorem GoesOn.not_error (h : GoesOn step)
    (hrun : runOn step s = .ok (.error fatal, left)) : False :=
  (h s).of_runOn hrun |>.elim fun _ ha => nomatch ha

theorem Asks.looksFirst (h : Asks step) : LooksFirst step := fun s =>
  (h s).mono fun _ _ hleft _ _ => hleft

theorem GoesOn.looksFirst (h : GoesOn step) : LooksFirst step := fun _ => h.ends

/-- Looking, and then looking first. -/
theorem Asks.bind_looksFirst (h : Asks step) (hnext : ∀ a, LooksFirst (next a)) :
    LooksFirst (step >>= next) := by
  intro s
  refine (h s).bind ?_ fun _ _ hleft _ _ => hleft
  rintro a left rfl
  exact hnext a left

/-- A check that stops under a condition and looks first otherwise. -/
theorem looksFirst_stopIf {error : TypeError} {next : Unit → Checker β}
    (hnext : LooksFirst (next ())) :
    LooksFirst (if c then stopAt u error >>= next else next ()) := by
  split
  · exact fun s => ends_stopAt_bind.2 fun _ _ => rfl
  · exact hnext

end Steps

/-! ### Rules that look first -/

theorem checkUnary_looksFirst (op : UnaryOp) (x : StmtId) : LooksFirst (checkUnary u op x) :=
  (asks_lookUp _).bind_looksFirst fun _ => looksFirst_stopIf (goesOn_setType _ _).looksFirst

theorem checkLocalLoad_looksFirst (slot : StmtId) : LooksFirst (checkLocalLoad u slot) :=
  (asks_requireScalar _).bind_looksFirst fun _ => (asks_lookUp _).bind_looksFirst fun _ =>
    (goesOn_setType _ _).looksFirst

theorem checkTernary_looksFirst (op : TernaryOp) (cond onTrue onFalse : StmtId) :
    LooksFirst (checkTernary u op cond onTrue onFalse) := by
  unfold checkTernary
  refine looksFirst_stopIf ?_
  refine (asks_lookUp _).bind_looksFirst fun condType => ?_
  refine (asks_lookUp _).bind_looksFirst fun trueType => ?_
  refine (asks_lookUp _).bind_looksFirst fun falseType => ?_
  refine looksFirst_stopIf ?_
  refine looksFirst_stopIf ?_
  -- from here on nothing can stop the rule
  apply GoesOn.looksFirst
  refine (goesOn_convert _ _ _).bind fun onTrue => (goesOn_convert _ _ _).bind fun onFalse => ?_
  exact (goesOn_setInstr _ _).bind fun _ => goesOn_setType _ _

theorem checkShuffle_looksFirst (lanes : List Lane) : LooksFirst (checkShuffle u lanes) := by
  cases lanes with
  | nil => exact (asks_stopAt _).looksFirst
  | cons first rest =>
    exact (asks_elemOf _).bind_looksFirst fun _ => (goesOn_setElem _ _).looksFirst

theorem checkRangeAssumption_looksFirst (input base : StmtId) :
    LooksFirst (checkRangeAssumption u input base) :=
  (asks_lookUp _).bind_looksFirst fun _ => (asks_lookUp _).bind_looksFirst fun _ =>
    looksFirst_stopIf (goesOn_setType _ _).looksFirst

theorem checkArgLoad_looksFirst (signature : Signature) (arg : Nat) :
    LooksFirst (checkArgLoad signature u arg) := by
  unfold checkArgLoad
  cases signature.slot? arg with
  | none => exact (asks_stopAt _).looksFirst
  | some slot =>
    dsimp only
    split
    · exact (asks_stopAt _).looksFirst
    · exact (goesOn_setType _ _).looksFirst

theorem checkArgStore_looksFirst (signature : Signature) (arg : Nat) (x : StmtId) :
    LooksFirst (checkArgStore signature u arg x) := by
  unfold checkArgStore
  cases signature.slot? arg with
  | none => exact (asks_stopAt _).looksFirst
  | some slot =>
    refine looksFirst_stopIf ((asks_elemOf _).bind_looksFirst fun _ => ?_)
    exact looksFirst_stopIf (goesOn_setType _ _).looksFirst

theorem checkExternalPtr_looksFirst (bases : List StmtId) :
    LooksFirst (checkExternalPtr u bases) := by
  cases bases with
  | nil => exact (asks_stopAt _).looksFirst
  | cons first rest =>
    exact (asks_elemOf _).bind_looksFirst fun _ => (goesOn_setType _ _).looksFirst

/-! ### Rules that type their instruction first -/

/-- A denied atomic operation is typed, and not converted. -/
theorem checkAtomic_stops {op : AtomicOp} {dest : StmtId} (hu : u < s.program.size)
    (hdest : dest < s.program.size) (hvalue : value < s.program.size) :
    Ends True s (checkAtomic config u op dest value) fun r left => ∀ fatal, r = .error fatal →
      (∃ width, fatal.error = .nonScalar .atomic width) ∧ left = s ∨
      config.narrowing = .deny ∧
        fatal.error = .precisionLoss
          ⟨.atomic, (s.program.typeAt dest).elem, (s.program.typeAt value).elem⟩ ∧
        left = { s with program := s.program.retype u (.scalar (s.program.typeAt dest).elem) } := by
  unfold checkAtomic requireScalar
  rw [bind_assoc, ends_bind (runOn_typeOf_eq hu)]
  dsimp only
  split
  · -- the width is asked for before anything is set
    rw [ends_stopAt_bind]
    rintro _ ⟨⟩
    exact .inl ⟨⟨_, rfl⟩, rfl⟩
  rw [pure_bind, ends_bind (runOn_elemOf_eq hdest), ends_bind (runOn_elemOf_eq hvalue),
    ends_bind (runOn_setType_eq hu)]
  split
  · unfold reportLoss
    split
    · next hdenied =>
      rw [ends_stopAt_bind]
      rintro _ ⟨⟩
      exact .inr ⟨hdenied.2, rfl, rfl⟩
    · -- a report that lets the operation pass has only warned
      refine ((goesOn_warn _ _).bind fun _ => ?_).ends
      exact (goesOn_insertCast _ _ _ _).bind fun _ => goesOn_setInstr _ _
  · exact (goesOn_pure ()).ends

/-- A global pointer that addresses anything is typed before it is looked at. -/
theorem checkGlobalPtr_stops {t : Storage} {nodes : List NodeId} {indices : List StmtId}
    (hu : u < s.program.size) (hindices : ∀ x ∈ indices, x < s.program.size) :
    Ends True s (checkGlobalPtr t u nodes indices) fun r left => ∀ fatal, r = .error fatal →
      nodes = [] ∧ left = s ∨ ∃ first ∈ nodes.head?, left =
        { s with
          program := s.program.retype u ⟨(s.program.typeAt u).width, (t.nodeAt first).elem⟩ } := by
  cases nodes with
  | nil => exact fun _ _ => .inl ⟨rfl, rfl⟩
  | cons first rest =>
    refine (checkGlobalPtr_ends hu hindices (.inl trivial)).mono ?_
    rintro r left ⟨hleft, -⟩ fatal -
    exact .inr ⟨first, rfl, hleft⟩

/-! ### Stores -/

/-- **What is left of a store that was denied**: it has the type of its place, one conversion stands
right before it, and it stores that, which has the element type of the place. -/
def DeniedStore (config : Config) (make : StmtId → Instr) (access : Access) (u place value : StmtId)
    (s : CheckState) (error : TypeError) (left : CheckState) : Prop :=
  config.narrowing = .deny ∧
    error = .precisionLoss
      ⟨access, (s.program.typeAt place).elem, (s.program.typeAt value).elem⟩ ∧
    left =
      { s with
        program := ((s.program.retype u (s.program.typeAt place)).splice .before u value
          (s.program.typeAt place).elem).rewrite u (make s.program.size)
        casts := s.casts + 1 } ∧
    (left.program.typeAt s.program.size).elem = (left.program.typeAt place).elem

/-- The report comes last, and so what is denied has been converted. -/
theorem store_stops (make : StmtId → Instr) {access : Access} {place : StmtId}
    (hs : s.program.Coherent) (hu : u < s.program.size) (hplace : place < s.program.size)
    (hvalue : value < s.program.size) :
    Ends True s (do
      setType u (s.program.typeAt place)
      let valueElem ← elemOf value
      if valueElem ≠ (s.program.typeAt place).elem then
        let cast ← insertCast .before u value (s.program.typeAt place).elem
        setInstr u (make cast)
      if ElementType.narrows (s.program.typeAt place).elem valueElem then
        reportLoss config u ⟨access, (s.program.typeAt place).elem, valueElem⟩)
      fun r left => ∀ fatal, r = .error fatal →
        DeniedStore config make access u place value s fatal.error left := by
  generalize hown : s.program.typeAt place = own
  have hsize : (s.program.retype u own).size = s.program.size := Program.size_retype
  rw [ends_bind (runOn_setType_eq hu), ends_bind (runOn_elemOf_eq (hsize.symm ▸ hvalue))]
  dsimp only
  rw [Program.typeAt_retype hu]
  by_cases hself : value = u
  · -- the store itself has the type of the place by now
    rw [if_pos hself, if_neg (not_not.2 rfl), ElementType.narrows_self]
    exact (goesOn_pure ()).ends
  rw [if_neg hself]
  by_cases hsame : (s.program.typeAt value).elem = own.elem
  · rw [if_neg (not_not.2 hsame), hsame, ElementType.narrows_self]
    exact (goesOn_pure ()).ends
  · -- the conversion and the written value stand before the loss is reported
    rw [if_pos hsame, ends_bind (runOn_insertCast_eq hs.retype (hsize.symm ▸ hu)
      (hsize.symm ▸ hvalue)), ends_bind (runOn_setInstr_eq (by
        rw [Program.size_splice, hsize]; exact Nat.lt_succ_of_lt hu))]
    split
    · unfold reportLoss
      split
      · next hdenied =>
        rw [ends_of_runOn (runOn_stopAt _ _ _)]
        rintro _ ⟨⟩
        refine ⟨hdenied.2, by rw [hown], by rw [hown, hsize], ?_⟩
        -- the place may be the store itself, and then has been typed like itself
        have hplace' : (s.program.retype u own).typeAt place = own := by
          rw [Program.typeAt_retype hu, hown, ite_self]
        have hcast : ((s.program.retype u own).splice .before u value own.elem).typeAt
            (s.program.retype u own).size = ⟨_, own.elem⟩ := Program.typeAt_splice_size
        rw [hsize] at hcast
        rw [Program.typeAt_rewrite, Program.typeAt_rewrite, hcast,
          Program.typeAt_splice_of_lt (hsize.symm ▸ hplace), hplace']
      · exact (goesOn_warn _ _).ends
    · exact (goesOn_pure ()).ends

theorem checkLocalStore_stops {slot : StmtId} (hs : s.program.Coherent) (hu : u < s.program.size)
    (hslot : slot < s.program.size) (hvalue : value < s.program.size) :
    Ends True s (checkLocalStore config u slot value) fun r left => ∀ fatal, r = .error fatal →
      DeniedStore config (.localStore slot) .localStore u slot value s fatal.error left := by
  unfold checkLocalStore
  rw [ends_bind (runOn_typeOf_eq hslot)]
  split
  · -- an untyped slot takes over the type of the value, whatever that is
    refine ((goesOn_lookUp _).bind fun _ => ?_).ends
    exact (goesOn_setType _ _).bind fun _ => goesOn_setType _ _
  · exact store_stops (.localStore slot) hs hu hslot hvalue

theorem checkGlobalStore_stops {ptr : StmtId} (hs : s.program.Coherent) (hu : u < s.program.size)
    (hptr : ptr < s.program.size) (hvalue : value < s.program.size) :
    Ends True s (checkGlobalStore config u ptr value) fun r left => ∀ fatal, r = .error fatal →
      DeniedStore config (.globalStore ptr) .globalStore u ptr value s fatal.error left := by
  unfold checkGlobalStore
  rw [ends_bind (runOn_typeOf_eq hptr)]
  exact store_stops (.globalStore ptr) hs hu hptr hvalue

/-! ### Binary operators -/

/-- **What is left of a binary operator that was refused after its operands were looked at**:
conversions were inserted, and the operator was pointed at them and lowered if it is a division.
Both of its operands have been brought to a common element type; what stands in the place of an
operand is that operand, seen through the conversions. Nothing that was there has changed its type,
the operator included. -/
structure Combines (op : BinaryOp) (u lhs rhs : StmtId) (s left : CheckState) : Prop where
  /-- What was there is where it was, and what is new are conversions. -/
  extends' : s.program.Extends left.program
  /-- They convert operands of the operator. -/
  fresh : ∀ c, s.program.size ≤ c → c < left.program.size →
    Converts s.program.size u s.program left.program c
  types : ∀ x < s.program.size, left.program.typeAt x = s.program.typeAt x
  others : ∀ x < s.program.size, x ≠ u → left.program.instrAt x = s.program.instrAt x
  operands : ∃ l r common, left.program.instrAt u = .binary op.undivided l r ∧
    left.program.StandsFor s.program.size l lhs ∧ left.program.StandsFor s.program.size r rhs ∧
    left.program.typeAt l = ⟨(s.program.typeAt lhs).width, common⟩ ∧
    left.program.typeAt r = ⟨(s.program.typeAt rhs).width, common⟩

theorem goesOn_coerce (target : ElementType) (accepts : ElementType → Bool) (d : StmtId) :
    GoesOn (coerce target accepts d) := by
  refine ((goesOn_lookUp _).bind fun _ => goesOn_pure _).bind fun elem => ?_
  split
  · exact goesOn_pure d
  · exact goesOn_insertCast _ _ _ _

/-- A division becomes a plain one, and other operators stay. -/
theorem lowerOperands_undivided :
    Ends True s (lowerOperands config op lhs rhs) fun r _ => ∀ op' l r', r = .ok (op', l, r') →
      op' = op.undivided := by
  unfold lowerOperands
  cases hlow : op.lowering? config with
  | none =>
    rintro _ _ _ ⟨⟩
    -- what is not lowered is left alone
    cases op <;> first | rfl | cases hlow
  | some lowering =>
    have hop : op.undivided = .div := by cases op <;> first | rfl | cases hlow
    -- the coercions of the operands go on, whatever their types
    refine Ends.bind (goesOn_coerce _ _ _ _) ?_ (by rintro _ _ ⟨_, ⟨⟩⟩)
    intro l s₁ _
    refine Ends.bind (goesOn_coerce _ _ _ _) ?_ (by rintro _ _ ⟨_, ⟨⟩⟩)
    intro r' s₂ _
    rintro _ _ _ ⟨⟩
    exact hop.symm

/-- Comparing leaves what it compares, and does not ask what is known of it before. -/
theorem compareOperands_stops {l r : StmtId} (hl : l < s.program.size) (hr : r < s.program.size) :
    Ends True s (compareOperands u op l r) fun answer left => ∀ fatal, answer = .error fatal →
      left = s ∧ ∀ op', fatal.error ≠ .ambiguousOperands op' := by
  unfold compareOperands
  rw [ends_bind (runOn_typeOf_eq hl), ends_bind (runOn_typeOf_eq hr)]
  dsimp only
  -- both refusals come before the result is typed
  split
  · rw [ends_stopAt_bind]
    rintro _ ⟨⟩
    exact ⟨rfl, nofun⟩
  split
  · rw [ends_stopAt_bind]
    rintro _ ⟨⟩
    exact ⟨rfl, nofun⟩
  · exact (goesOn_setType _ _).ends

/-- The two halves of the rule. -/
theorem lower_combine_stops (hs : Ready s.program.size u s.program)
    (hi : s.program.instrAt u = .binary op lhs rhs) :
    Ends True s (do
      let (op, lhs, rhs) ← lowerOperands config op lhs rhs
      combine u op lhs rhs) fun r left => ∀ fatal, r = .error fatal →
        (∀ op', fatal.error ≠ .ambiguousOperands op') ∧ Combines op u lhs rhs s left := by
  -- the operator and the conversions of its operands go on: only the comparison can stop it
  refine ((lowerOperands_ends hs hi).and fun _ _ => lowerOperands_undivided.of_runOn).bind ?_
    (by rintro _ _ ⟨⟨_, _, _, ⟨⟩, _⟩, _⟩)
  rintro _ s₁ ⟨⟨op', l, r, ⟨⟩, hop, hw, hl, hr⟩, hundivided⟩
  obtain rfl := hundivided op' l r rfl
  dsimp only
  rw [combine_eq]
  refine (bring_ends hop hi hw hl hr).bind ?_ (by rintro _ _ ⟨_, _, _, ⟨⟩, _⟩)
  rintro _ _ ⟨l', r', s₂, ⟨⟩, rfl, hw₂, hl', hr', hredirect⟩
  have hsize : (s₂.program.rewrite u (.binary op.undivided l' r')).size = s₂.program.size :=
    Program.size_rewrite
  refine (compareOperands_stops (hsize.symm ▸ hl'.lt_size) (hsize.symm ▸ hr'.lt_size)).mono ?_
  intro answer left hstops fatal hfatal
  obtain ⟨rfl, herror⟩ := hstops fatal hfatal
  refine ⟨herror, ?_⟩
  have hp := hw₂.toProgress.rewrite hs hredirect
  -- what is left besides the operator itself is the program it started from
  have hext := (hw₂.ready.coherent).extends_rewrite hw₂.ready.lt_size hredirect
  refine ⟨hp.moves.extension hs.coherent, hp.fresh, hp.types, ?_, ?_⟩
  · intro x hx hxu
    exact hp.moves.instrAt_eq hs.coherent hx hxu
  · refine ⟨l', r', _, ?_, hext.standsFor hl'.serves.stands, hext.standsFor hr'.serves.stands,
      Program.typeAt_rewrite.trans hl'.type, Program.typeAt_rewrite.trans hr'.type⟩
    exact Program.instrAt_rewrite_self hw₂.ready.lt_size

theorem checkBinary_stops (hs : Ready s.program.size u s.program)
    (hi : s.program.instrAt u = .binary op lhs rhs) :
    Ends True s (checkBinary config u op lhs rhs) fun r left => ∀ fatal, r = .error fatal →
      fatal.error = .ambiguousOperands op ∧ left = s ∨
      (∀ op', fatal.error ≠ .ambiguousOperands op') ∧ Combines op u lhs rhs s left := by
  have hlhs := hs.grounded u hs.lt_size lhs (hi ▸ List.mem_cons_self)
  have hrhs := hs.grounded u hs.lt_size rhs
    (hi ▸ List.mem_cons_of_mem _ List.mem_cons_self)
  -- the right operand is looked at only if nothing is known of the left one
  have hrest : Ends True s (do
      let (op, lhs, rhs) ← lowerOperands config op lhs rhs
      combine u op lhs rhs) fun r left => ∀ fatal, r = .error fatal →
        fatal.error = .ambiguousOperands op ∧ left = s ∨
        (∀ op', fatal.error ≠ .ambiguousOperands op') ∧ Combines op u lhs rhs s left :=
    (lower_combine_stops hs hi).mono fun _ _ h fatal hfatal => .inr (h fatal hfatal)
  rw [checkBinary_eq, ends_bind (runOn_elemOf_eq hlhs)]
  dsimp only
  split
  · rw [ends_bind (runOn_elemOf_eq hrhs)]
    split
    · rw [ends_stopAt_bind]
      rintro _ ⟨⟩
      exact .inl ⟨rfl, rfl⟩
    · exact hrest
  · exact hrest

/-! ### All rules -/

/-- **What the rule of `u` leaves behind when it stops.** Instructions that are not listed here have
no rule that stops. -/
def Remains (ctx : CheckContext) (u : StmtId) (s : CheckState) (error : TypeError)
    (left : CheckState) : Instr → Prop
  | .unary _ _ | .localLoad _ | .ternary _ _ _ _ | .shuffle _ | .assumeInRange _ _ _ _
  | .argLoad _ | .argStore _ _ | .externalPtr _ _ => left = s
  | .globalPtr nodes _ =>
    nodes = [] ∧ left = s ∨ ∃ first ∈ nodes.head?, left =
      { s with
        program := s.program.retype u
          ⟨(s.program.typeAt u).width, (ctx.storage.nodeAt first).elem⟩ }
  | .atomic _ dest value =>
    (∃ width, error = .nonScalar .atomic width) ∧ left = s ∨
    ctx.config.narrowing = .deny ∧
      error = .precisionLoss
        ⟨.atomic, (s.program.typeAt dest).elem, (s.program.typeAt value).elem⟩ ∧
      left = { s with program := s.program.retype u (.scalar (s.program.typeAt dest).elem) }
  | .localStore slot value =>
    DeniedStore ctx.config (.localStore slot) .localStore u slot value s error left
  | .globalStore ptr value =>
    DeniedStore ctx.config (.globalStore ptr) .globalStore u ptr value s error left
  | .binary op lhs rhs =>
    error = .ambiguousOperands op ∧ left = s ∨
    (∀ op', error ≠ .ambiguousOperands op') ∧ Combines op u lhs rhs s left
  | _ => False

/-- Whatever is left, the other instructions have the types they had. -/
theorem Remains.types {error : TypeError} {x : StmtId} (h : Remains ctx u s error left i)
    (hs : s.program.Coherent) (hu : u < s.program.size) (hx : x < s.program.size) (hxu : x ≠ u) :
    left.program.typeAt x = s.program.typeAt x := by
  -- all that is typed before a stop is the instruction itself
  have hretype : ∀ t, (s.program.retype u t).typeAt x = s.program.typeAt x := by
    intro t
    rw [Program.typeAt_retype hu, if_neg hxu]
  cases i with
  | unary | localLoad | ternary | shuffle | assumeInRange | argLoad | argStore | externalPtr =>
    exact congrArg (fun s => s.program.typeAt x) h
  | globalPtr nodes indices =>
    obtain ⟨-, rfl⟩ | ⟨first, -, rfl⟩ := h
    · rfl
    · exact hretype _
  | atomic op dest value =>
    obtain ⟨-, rfl⟩ | ⟨-, -, rfl⟩ := h
    · rfl
    · exact hretype _
  | localStore place value | globalStore place value =>
    obtain ⟨-, -, rfl, -⟩ := h
    have hx' : x < (s.program.retype u (s.program.typeAt place)).size := by
      rw [Program.size_retype]; exact hx
    rw [Program.typeAt_rewrite, Program.typeAt_splice_of_lt hx']
    exact hretype _
  | binary op lhs rhs =>
    obtain ⟨-, rfl⟩ | ⟨-, h⟩ := h
    · rfl
    · exact h.types x hx
  | _ => exact h.elim

theorem goesOn_forceIndexType (x : StmtId) : GoesOn (forceIndexType x) := by
  refine (goesOn_lookUp _).bind fun stmt => ?_
  split
  · exact goesOn_setType _ _
  · exact goesOn_pure ()

/-- **What a refused instruction leaves behind.** If the rule of an instruction stops the check, it
stops it at this instruction. -/
theorem rule_leaves (hs : s.program.Coherent) (hgrounded : s.program.Grounded)
    (hu : u < s.program.size)
    (hrun : runOn (rule ctx u (s.program.instrAt u)) s = .ok (.error fatal, left)) :
    fatal.stmt = u ∧ Remains ctx u s fatal.error left (s.program.instrAt u) ∧
      (∀ x < s.program.size, x ≠ u → left.program.typeAt x = s.program.typeAt x) ∧
      left.casts + s.program.size = s.casts + left.program.size := by
  have hready : Ready s.program.size u s.program := ⟨hs, hgrounded, Nat.le_refl _, hu⟩
  -- the error is that of the ruling, which names the visited instruction
  have hstmt : fatal.stmt = u := by
    have hobeys := (rule_obeys hready (.inl trivial)).of_runOn hrun
    obtain ⟨_, -, rfl⟩ := Ruling.answer_eq_error_iff.1 hobeys.verdict.symm
    rfl
  -- what stands by then depends on how far the rule of the kind had come
  have hleaves : Remains ctx u s fatal.error left (s.program.instrAt u) := by
    have hoperands := hgrounded u hu
    generalize hi : s.program.instrAt u = i at hrun hoperands ⊢
    cases i with
    | unary op x =>
      exact (checkUnary_looksFirst op x s).of_runOn hrun fatal rfl
    | localLoad slot =>
      exact (checkLocalLoad_looksFirst slot s).of_runOn hrun fatal rfl
    | ternary op cond onTrue onFalse =>
      exact (checkTernary_looksFirst op cond onTrue onFalse s).of_runOn hrun fatal rfl
    | shuffle lanes =>
      exact (checkShuffle_looksFirst lanes s).of_runOn hrun fatal rfl
    | assumeInRange input base low high =>
      exact (checkRangeAssumption_looksFirst input base s).of_runOn hrun fatal rfl
    | argLoad arg =>
      exact (checkArgLoad_looksFirst ctx.signature arg s).of_runOn hrun fatal rfl
    | argStore arg value =>
      exact (checkArgStore_looksFirst ctx.signature arg value s).of_runOn hrun fatal rfl
    | externalPtr bases indices =>
      exact (checkExternalPtr_looksFirst bases s).of_runOn hrun fatal rfl
    | globalPtr nodes indices =>
      exact (checkGlobalPtr_stops hu hoperands).of_runOn hrun fatal rfl
    | atomic op dest value =>
      have hdest := hoperands dest List.mem_cons_self
      have hvalue := hoperands value (List.mem_cons_of_mem _ List.mem_cons_self)
      exact (checkAtomic_stops hu hdest hvalue).of_runOn hrun fatal rfl
    | localStore slot value =>
      have hslot := hoperands slot List.mem_cons_self
      have hvalue := hoperands value (List.mem_cons_of_mem _ List.mem_cons_self)
      exact (checkLocalStore_stops hs hu hslot hvalue).of_runOn hrun fatal rfl
    | globalStore ptr value =>
      have hptr := hoperands ptr List.mem_cons_self
      have hvalue := hoperands value (List.mem_cons_of_mem _ List.mem_cons_self)
      exact (checkGlobalStore_stops hs hu hptr hvalue).of_runOn hrun fatal rfl
    | binary op lhs rhs =>
      exact (checkBinary_stops hready hi).of_runOn hrun fatal rfl
    -- the other kinds never stop
    | alloca | const | branch | structFor | whileLoop | offloaded =>
      exact (goesOn_pure ()).not_error hrun
    | storageOp | loopIndex =>
      exact (goesOn_setType u _).not_error hrun
    | globalLoad | childPtr =>
      exact ((goesOn_lookUp _).bind fun _ => goesOn_setType u _).not_error hrun
    | rangeFor first last body =>
      exact ((goesOn_forceIndexType first).bind fun _ => goesOn_forceIndexType last).not_error
        hrun
  exact ⟨hstmt, hleaves, fun x hx hxu => hleaves.types hs hu hx hxu,
    (balanced ctx.config).rule ctx.storage ctx.signature _ s _ left hrun⟩

/-- A real number and a pair of integers, which cannot be added. -/
def mismatchSteps : List Step :=
  [.emit (.const (.f32 0)), .emit .alloca, .typed 1 ⟨2, .i32⟩, .emit (.binary .add 0 1)]

theorem rule_leaves_mismatch :
    ∃ p ids left, Program.build mismatchSteps = .ok (p, ids) ∧
      runOn (rule ⟨{}, {}, .empty⟩ 2 (p.instrAt 2)) { program := p } =
        .ok (.error ⟨2, .operandMismatch ⟨1, .f32⟩ ⟨2, .f32⟩⟩, left) ∧
      Combines .add 2 0 1 { program := p } left ∧ left.program.size = 4 := by
  have hmade : (Program.build mismatchSteps).bind (fun made =>
      (runOn (rule ⟨{}, {}, .empty⟩ 2 (made.1.instrAt 2)) { program := made.1 }).map fun run =>
        (made.1.size, decide made.1.Grounded, made.1.instrAt 2, run.1, run.2.casts)) =
      .ok (3, true, .binary .add 0 1, .error ⟨2, .operandMismatch ⟨1, .f32⟩ ⟨2, .f32⟩⟩, 1) := by
    decide +kernel
  obtain ⟨⟨p, ids⟩, hbuild, hmade⟩ := Fault.bind_eq_ok_iff.1 hmade
  cases hrun : runOn (rule ⟨{}, {}, .empty⟩ 2 (p.instrAt 2)) { program := p } with
  | error fault => rw [hrun] at hmade; cases hmade
  | ok run =>
    obtain ⟨answer, left⟩ := run
    rw [hrun] at hmade
    obtain ⟨hsize, hgrounded, hi, rfl, hcasts⟩ : p.size = 3 ∧ p.Grounded ∧
        p.instrAt 2 = .binary .add 0 1 ∧
        answer = .error ⟨2, .operandMismatch ⟨1, .f32⟩ ⟨2, .f32⟩⟩ ∧ left.casts = 1 := by
      simpa using Except.ok.inj hmade
    obtain ⟨-, hleaves, -, hgrown⟩ := rule_leaves (s := { program := p })
      (Program.build_coherent hbuild) hgrounded (by rw [hsize]; decide) hrun
    rw [hi] at hleaves
    obtain ⟨herror, -⟩ | ⟨-, hcombines⟩ := hleaves
    · cases herror
    · refine ⟨p, ids, left, hbuild, hrun, hcombines, ?_⟩
      -- the one conversion that was counted is the one instruction that is new
      rw [hsize, hcasts] at hgrown
      dsimp only at hgrown
      omega

end TensorKernel.Checker
