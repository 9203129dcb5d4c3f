import TensorKernel.Check.Pass
import TensorKernel.Proofs.ValueRules

/-!
# The rules for memory obey their rulings

The rules for local slots, stores, atomic operations, pointers, arguments and loop bounds, and
with them `rule_obeys`: **every typing rule obeys its ruling**. Two stores differ only in where
they store to, and have one lemma (`store_obeys`).

A rule that asks the storage for a node that is not there does not end; such a fault has to be
excused, or the node and its parent have to exist (`Storage.Answers`).
-/

namespace TensorKernel

namespace Storage

/-- The parents that nodes refer to exist. -/
def Linked (t : Storage) : Prop :=
  ∀ k < t.size, ∀ parent, (t.nodeAt k).parent = some parent → parent < t.size

/-- These nodes can be asked for. -/
structure Answers (t : Storage) (nodes : List NodeId) : Prop where
  linked : t.Linked
  lt_size : ∀ k ∈ nodes, k < t.size

theorem node_eq {t : Storage} {k : NodeId} (h : k < t.size) : t.node k = .ok (t.nodeAt k) := by
  have hk : t.nodes[k]? = some t.nodes[k] := Array.getElem?_eq_getElem h
  rw [node_eq_ok_iff, nodeAt, hk, Option.getD_some]

/-! ### Trees that were grown -/

theorem linked_empty : empty.Linked := fun k hk up hup => by
  obtain rfl : k = 0 := Nat.lt_one_iff.1 hk
  cases hup

/-- A new node needs a parent that exists. -/
theorem lt_size_of_insert {t grown : Storage} {parent id : NodeId} {kind : NodeKind}
    {elem : ElementType} {arity : Nat} (h : t.insert parent kind elem arity = .ok (grown, id)) :
    parent < t.size := by
  obtain ⟨above, habove, -⟩ := insert_eq_ok_iff.1 h
  exact (Array.getElem?_eq_some_iff.1 habove).1

/-- A new node comes last, and of the others only its parent changes, in the list of its
children. -/
theorem nodeAt_insert {t grown : Storage} {parent id k : NodeId} {kind : NodeKind}
    {elem : ElementType} {arity : Nat} (h : t.insert parent kind elem arity = .ok (grown, id)) :
    grown.nodeAt k =
      if k = t.size then ⟨kind, elem, some parent, arity, []⟩
      else if k = parent then
        { t.nodeAt parent with children := (t.nodeAt parent).children ++ [t.size] }
      else t.nodeAt k := by
  have hparent : parent < t.nodes.size := lt_size_of_insert h
  obtain ⟨above, habove, rfl, hnodes⟩ := insert_eq_ok_iff.1 h
  rw [nodeAt, hnodes, Array.getElem?_push, Array.size_setIfInBounds, ← size]
  -- the new node, then the one above it, then all others
  split
  · rfl
  · rw [Array.getElem?_setIfInBounds, nodeAt, nodeAt, habove]
    by_cases heq : k = parent
    · rw [if_pos heq.symm, if_pos hparent, if_pos heq]
      rfl
    · rw [if_neg (Ne.symm heq), if_neg heq]

/-- A new node refers to its parent, and the others refer to what they did. -/
theorem parent_insert {t grown : Storage} {parent id k : NodeId} {kind : NodeKind}
    {elem : ElementType} {arity : Nat} (h : t.insert parent kind elem arity = .ok (grown, id)) :
    (grown.nodeAt k).parent = if k = t.size then some parent else (t.nodeAt k).parent := by
  rw [nodeAt_insert h]
  split
  · rfl
  · split
    · next heq => rw [heq]
    · rfl

/-- **A new node keeps the tree linked**: its parent is there already. -/
theorem linked_insert {t grown : Storage} {parent id : NodeId} {kind : NodeKind}
    {elem : ElementType} {arity : Nat} (ht : t.Linked)
    (h : t.insert parent kind elem arity = .ok (grown, id)) : grown.Linked := by
  intro k hk up hup
  rw [parent_insert h] at hup
  have hparent : parent < t.size := lt_size_of_insert h
  obtain ⟨above, -, -, hnodes⟩ := insert_eq_ok_iff.1 h
  have hsize : grown.size = t.size + 1 := by
    rw [size, hnodes, Array.size_push, Array.size_setIfInBounds, size]
  rw [hsize] at hk ⊢
  -- the new node lies below the one that was named, and the others where they lay
  split at hup
  · cases hup
    exact Nat.lt_succ_of_lt hparent
  · next hne =>
    have hlt : k < t.size := Nat.lt_of_le_of_ne (Nat.le_of_lt_succ hk) hne
    exact Nat.lt_succ_of_lt (ht k hlt up hup)

/-- **A tree that was grown is linked**, since a parent is older than its children. -/
theorem linked_growAll {t grown : Storage} {steps : List Growth} {ids : List NodeId}
    (ht : t.Linked) (h : t.growAll steps = .ok (grown, ids)) : grown.Linked := by
  induction steps generalizing t ids with
  | nil => cases h; exact ht
  | cons g rest ih =>
    obtain ⟨⟨t', id⟩, hgrow, h⟩ := Fault.bind_eq_ok_iff.1 h
    obtain ⟨⟨t'', ids'⟩, hall, h⟩ := Fault.bind_eq_ok_iff.1 h
    cases h
    refine ih ?_ hall
    cases g <;> exact linked_insert ht hgrow

end Storage

namespace Checker

variable {ctx : CheckContext} {signature : Signature} {config : Config} {n k : Nat}
  {u slot value ptr : StmtId} {s s₁ : CheckState} {sets : List (StmtId × VectorType)}
  {losses : List PrecisionLoss} {loss : PrecisionLoss} {excuse : Prop}

/-! ### Stores -/

/-- A report warns or stops, and leaves the program alone. -/
theorem reportLoss_ends (h : Progress n u s s₁ sets k []) (hu : u < s₁.program.size) :
    Ends excuse s₁ (reportLoss config u loss) fun r s₂ =>
      r = (Ruling.report config loss).verdict u ∧
        Progress n u s s₂ sets k (Ruling.report config loss).losses ∧
        s₂.program = s₁.program := by
  unfold reportLoss Ruling.report
  split
  · exact ⟨rfl, h, rfl⟩
  · rw [ends_of_runOn (runOn_warn_eq hu)]
    exact ⟨rfl, h.warn rfl, rfl⟩

/-- The last step of a store. -/
private theorem report_obeys {place : VectorType} {elem : ElementType} {access : Access}
    (h : Progress n u s s₁ [(u, place)] k []) (hu : u < s₁.program.size)
    (hagreed : Agreed signature s₁.program.typeAt u (s₁.program.instrAt u)) :
    Ends excuse s₁
      (if ElementType.narrows place.elem elem then
        reportLoss config u ⟨access, place.elem, elem⟩ else pure ())
      (Obeys signature n u s
        { (if ElementType.narrows place.elem elem then
            Ruling.report config ⟨access, place.elem, elem⟩ else {}) with
          sets := [(u, place)], casts := k }) := by
  -- a report changes neither types nor instructions
  split
  · refine (reportLoss_ends h hu).mono fun r s₂ ⟨hr, hp, heq⟩ => ⟨hr, hp, ?_⟩
    intro _ _
    rw [heq]
    exact hagreed
  · exact ⟨rfl, h, fun _ _ => hagreed⟩

/-- **A store** to a place that has a type: the value is converted to it, and reported if it does
not fit. -/
theorem store_obeys (make : StmtId → Instr) {access : Access} {place : VectorType}
    (hs : Ready n u s.program) (hi : s.program.instrAt u = make value)
    (hmem : value ∈ (make value).typedOperands)
    (hmake : ∀ (R : StmtId → StmtId → Prop) (e : StmtId), R e value →
      Redirected R (make value) (make e))
    (hagreed : ∀ τ e, Agreed signature τ u (make e)) :
    Ends excuse s (do
      setType u place
      let valueElem ← elemOf value
      if valueElem ≠ place.elem then
        let cast ← insertCast .before u value place.elem
        setInstr u (make cast)
      if ElementType.narrows place.elem valueElem then
        reportLoss config u ⟨access, place.elem, valueElem⟩)
      (Obeys signature n u s (.store config s.program.typeAt u access place value)) := by
  -- the store is typed first, so the value is looked at in the program that this leaves
  have hw : Working n u s { s with program := s.program.retype u place } [(u, place)] 0 [] :=
    ⟨(Progress.refl n u s).own hs, hs, Program.instrAt_retype⟩
  have hi₁ : (s.program.retype u place).instrAt u = make value := Program.instrAt_retype.trans hi
  have hv := hw.ready.held (hi₁ ▸ hmem)
  have htype : (s.program.retype u place).typeAt value =
      Function.update s.program.typeAt u place value := by
    rw [Program.typeAt_retype hs.lt_size, Function.update_apply]
  unfold Ruling.store ElementType.castsTo
  rw [ends_bind (runOn_setType_eq hs.lt_size), ends_bind (runOn_elemOf_eq hv.lt_size)]
  dsimp only
  rw [htype]
  rw [htype] at hv
  split
  · refine (insertCast_ends hw hv).bind ?_ ?_
    · -- the store is pointed at the conversion before it is reported
      rintro e s₂ ⟨_, ⟨⟩, hw₂, he, -⟩
      have hr := hw₂.ready
      have hredirect := hmake (s₂.program.Serves n u) e he.serves
      rw [← hw₂.instr_eq.trans hi] at hredirect
      rw [ends_bind (runOn_setInstr_eq hr.lt_size)]
      have hp := hw₂.toProgress.rewrite hs hredirect
      refine report_obeys hp (hr.moves (.single (.redirect hr.lt_size hredirect))).lt_size ?_
      rw [Program.instrAt_rewrite_self hr.lt_size]
      exact hagreed _ _
    · rintro _ _ ⟨_, ⟨⟩, _⟩
  · -- a value of the type of the place is stored as it is
    next heq =>
    rw [if_pos (not_not.1 heq)]
    refine report_obeys hw.toProgress hw.ready.lt_size ?_
    change Agreed _ _ _ ((s.program.retype u place).instrAt u)
    rw [hi₁]
    exact hagreed _ _

theorem checkLocalStore_obeys (hs : Ready n u s.program)
    (hi : s.program.instrAt u = .localStore slot value) :
    Ends excuse s (checkLocalStore config u slot value)
      (Obeys signature n u s (.localStore config s.program.typeAt u slot value)) := by
  have hslot := hs.grounded u hs.lt_size slot (hi ▸ List.mem_cons_self)
  have hvalue := hs.grounded u hs.lt_size value
    (hi ▸ List.mem_cons_of_mem _ List.mem_cons_self)
  unfold checkLocalStore Ruling.localStore
  rw [ends_bind (runOn_typeOf_eq hslot)]
  split
  · -- an untyped slot takes over the type of the value
    next hunknown =>
    rw [ends_bind (runOn_typeOf_eq hvalue), ends_bind (runOn_setType_eq hslot)]
    -- two settings, and no conversion is there yet that the first could touch
    have hp := ((Progress.refl n u s).retype hs (.slot hi hunknown) hslot (.inr rfl)).own
      (t := s.program.typeAt value) hs
    have hu : u < (s.program.retype slot (s.program.typeAt value)).size := by
      rw [Program.size_retype]; exact hs.lt_size
    rw [ends_of_runOn (runOn_setType_eq hu)]
    refine ⟨rfl, hp, ?_⟩
    intro _ _
    rw [Program.instrAt_retype, Program.instrAt_retype, hi]
    trivial
  · exact store_obeys (.localStore slot) hs hi (List.mem_cons_of_mem _ List.mem_cons_self)
      (fun _ _ he => .localStore he) (fun _ _ => trivial)

theorem checkGlobalStore_obeys (hs : Ready n u s.program)
    (hi : s.program.instrAt u = .globalStore ptr value) :
    Ends excuse s (checkGlobalStore config u ptr value)
      (Obeys signature n u s (.globalStore config s.program.typeAt u ptr value)) := by
  have hptr := hs.grounded u hs.lt_size ptr (hi ▸ List.mem_cons_self)
  unfold checkGlobalStore Ruling.globalStore
  rw [ends_bind (runOn_typeOf_eq hptr)]
  exact store_obeys (.globalStore ptr) hs hi (List.mem_cons_of_mem _ List.mem_cons_self)
    (fun _ _ he => .globalStore he) (fun _ _ => trivial)

/-! ### Scalar accesses -/

/-- A rule for scalar accesses goes on exactly if its instruction is one lane wide. -/
private theorem requireScalar_obeys {access : Access} {next : Checker Unit} {ruling : Ruling}
    (hs : Ready n u s.program)
    (h : (s.program.typeAt u).width = 1 → Ends excuse s next (Obeys signature n u s ruling)) :
    Ends excuse s (do requireScalar u access; next)
      (Obeys signature n u s
        (if (s.program.typeAt u).width ≠ 1 then
          .refuse (.nonScalar access (s.program.typeAt u).width) else ruling)) := by
  unfold requireScalar
  -- the width is read before anything is written
  rw [bind_assoc, ends_bind (runOn_typeOf_eq hs.lt_size)]
  dsimp only
  split
  · exact stopAt_bind_obeys
  · next hwidth => exact h (not_not.1 hwidth)

theorem checkLocalLoad_obeys (hs : Ready n u s.program)
    (hi : s.program.instrAt u = .localLoad slot) :
    Ends excuse s (checkLocalLoad u slot)
      (Obeys signature n u s (.localLoad s.program.typeAt u slot)) := by
  have hslot := hs.grounded u hs.lt_size slot (hi ▸ List.mem_cons_self)
  refine requireScalar_obeys hs ?_
  intro _
  rw [ends_bind (runOn_typeOf_eq hslot)]
  exact setType_obeys hs (by rw [hi]; trivial)

/-- **Atomic operations.** The report comes first, and only what it lets pass is converted. -/
theorem checkAtomic_obeys {op : AtomicOp} {dest : StmtId} (hs : Ready n u s.program)
    (hi : s.program.instrAt u = .atomic op dest value) :
    Ends excuse s (checkAtomic config u op dest value)
      (Obeys signature n u s (.atomic config s.program.typeAt u dest value)) := by
  have hdest := hs.grounded u hs.lt_size dest (hi ▸ List.mem_cons_self)
  have hmem : value ∈ (s.program.instrAt u).typedOperands :=
    hi ▸ List.mem_cons_of_mem _ List.mem_cons_self
  have hvalue := hs.grounded u hs.lt_size value hmem
  refine requireScalar_obeys hs ?_
  intro _
  -- both element types are read before the operation is typed
  rw [ends_bind (runOn_elemOf_eq hdest), ends_bind (runOn_elemOf_eq hvalue),
    ends_bind (runOn_setType_eq hs.lt_size)]
  have hp := (Progress.refl n u s).own (t := .scalar (s.program.typeAt dest).elem) hs
  have hinstr : (s.program.retype u (.scalar (s.program.typeAt dest).elem)).instrAt u =
      s.program.instrAt u := Program.instrAt_retype
  split
  · refine (reportLoss_ends hp (hs.moves hp.moves).lt_size).bind ?_ ?_
    · rintro ⟨⟩ s₂ ⟨hr, hp₂, heq⟩
      have hok := Ruling.answer_eq_ok_iff.1 hr.symm
      -- a report that lets the operation pass has only warned
      have hw : Working n u s s₂ _ 0 _ := ⟨hp₂, hs, by rw [heq]; exact hinstr⟩
      have hv := hw.ready.held (hw.instr_eq ▸ hmem)
      refine (insertCast_ends hw hv).bind ?_ ?_
      · rintro e s₃ ⟨_, ⟨⟩, hw₃, he, -⟩
        have hr₃ := hw₃.ready
        -- the place stays, the value is the conversion now
        have hredirect : Redirected (s₃.program.Serves n u) (s₃.program.instrAt u)
            (.atomic op dest e) := hw₃.instr_eq.trans hi ▸ .atomic he.serves
        rw [ends_of_runOn (runOn_setInstr_eq hr₃.lt_size)]
        refine ⟨?_, ?_, ?_⟩
        · exact (congrArg (Ruling.answer u) hok).symm
        · dsimp only
          rw [hok]
          exact hw₃.toProgress.rewrite hs hredirect
        · intro _ _
          rw [Program.instrAt_rewrite_self hr₃.lt_size]
          trivial
      · rintro _ _ ⟨_, ⟨⟩, _⟩
    · -- denied, and so not converted
      rintro fatal s₂ ⟨hr, hp₂, heq⟩
      obtain ⟨error, herr, -⟩ := Ruling.answer_eq_error_iff.1 hr.symm
      refine ⟨hr, ?_, fun h => nomatch h⟩
      dsimp only
      rw [herr]
      exact hp₂
  · next heq =>
    rw [if_pos (not_not.1 heq)]
    refine ⟨rfl, hp, ?_⟩
    intro _ _
    change Agreed _ _ _ ((s.program.retype u _).instrAt u)
    rw [hinstr, hi]
    trivial

/-! ### Pointers -/

theorem ofStorage_ends {t : Storage} {k : NodeId} (h : excuse ∨ k < t.size) :
    Ends excuse s (ofStorage (t.node k)) fun r left => r = .ok (t.nodeAt k) ∧ left = s := by
  unfold ofStorage Ends
  rw [runOn_lookUp]
  rcases Nat.lt_or_ge k t.size with hlt | hge
  · rw [Storage.node_eq hlt]
    exact ⟨rfl, rfl⟩
  · -- the node is not there, which has to be excused
    have hnone : t.node k = .error (.noNode k) := by
      rw [Storage.node, Array.getElem?_eq_none hge]
    rw [hnone]
    exact h.resolve_right (Nat.not_lt.2 hge)

/-- A look at one thing, which changes nothing and may stop the rule. -/
def Looks (excuse : Prop) (u : StmtId) (s : CheckState) (step : Checker Unit)
    (error : Option TypeError) : Prop :=
  Ends excuse s step fun r left => r = Ruling.answer u error ∧ left = s

theorem looks_iff_finds {step : Checker Unit} {error : Option TypeError} :
    Looks excuse u s step error ↔ Finds excuse s step (error.map (Fatal.mk u)) := by
  cases error <;> rfl

/-- Looking at one thing after the other, the first thing that is wrong counts. -/
theorem forM_looks {α : Type} {look : α → Checker Unit} (error : α → Option TypeError)
    {l : List α} (h : ∀ x ∈ l, Looks excuse u s (look x) (error x)) :
    Looks excuse u s (l.forM look) (l.findSome? error) := by
  rw [looks_iff_finds, List.map_findSome?]
  exact forM_finds _ fun x hx => looks_iff_finds.1 (h x hx)

theorem checkArity_looks {t : Storage} {count : Nat} {k : NodeId}
    (h : excuse ∨ t.Linked ∧ k < t.size) :
    Looks excuse u s (checkArity t u count k) (t.arityError count k) := by
  unfold checkArity Storage.arityError
  refine (ofStorage_ends (h.imp_right And.right)).bind ?_ (by rintro _ _ ⟨⟨⟩, _⟩)
  rintro _ left ⟨⟨⟩, rfl⟩
  -- the root has no parent and takes any number of indices
  cases hparent : (t.nodeAt k).parent with
  | none => exact ⟨rfl, rfl⟩
  | some parent =>
    have hlt : excuse ∨ parent < t.size := h.imp_right fun h => h.1 k h.2 parent hparent
    refine (ofStorage_ends hlt).bind ?_ (by rintro _ _ ⟨⟨⟩, _⟩)
    rintro _ left ⟨⟨⟩, rfl⟩
    dsimp only
    split
    · exact ⟨rfl, rfl⟩
    · exact ⟨rfl, rfl⟩

theorem checkIndex_looks {lanes position : Nat} {index : StmtId} (h : index < s.program.size) :
    Looks excuse u s (checkIndex u lanes position index)
      ((s.program.typeAt index).indexError lanes position) := by
  unfold checkIndex Looks VectorType.indexError
  rw [ends_bind (runOn_typeOf_eq h)]
  -- the element type of an index is looked at first, then its width
  by_cases hint : (!(s.program.typeAt index).elem.isIntegral) = true
  · rw [if_pos hint, if_pos hint]
    exact ⟨rfl, rfl⟩
  · rw [if_neg hint, if_neg hint]
    dsimp only
    split
    · exact ⟨rfl, rfl⟩
    · exact ⟨rfl, rfl⟩

theorem checkIndices_looks {lanes : Nat} {indices : List StmtId}
    (h : ∀ x ∈ indices, x < s.program.size) :
    Looks excuse u s (indices.zipIdx.forM fun index => checkIndex u lanes index.2 index.1)
      (Ruling.indexErrors s.program.typeAt lanes indices) := by
  refine forM_looks _ ?_
  intro index hindex
  exact checkIndex_looks (h index.1 (List.fst_mem_of_mem_zipIdx hindex))

/-- How the rule of a global pointer ends, and what it leaves. The pointer is typed before anything
is looked at, and all nodes come before all indices. -/
theorem checkGlobalPtr_ends {t : Storage} {first : NodeId} {rest : List NodeId}
    {indices : List StmtId} (hu : u < s.program.size) (hindices : ∀ x ∈ indices, x < s.program.size)
    (ht : excuse ∨ t.Answers (first :: rest)) :
    Ends excuse s (checkGlobalPtr t u (first :: rest) indices) fun r left =>
      left = { s with program :=
        s.program.retype u ⟨(s.program.typeAt u).width, (t.nodeAt first).elem⟩ } ∧
      r = Ruling.answer u (((first :: rest).findSome? (t.arityError indices.length)).or
        (Ruling.indexErrors left.program.typeAt (first :: rest).length indices)) := by
  unfold checkGlobalPtr
  refine (ofStorage_ends (ht.imp_right fun h => h.lt_size first List.mem_cons_self)).bind ?_
    (by rintro _ _ ⟨⟨⟩, _⟩)
  rintro _ left ⟨⟨⟩, rfl⟩
  rw [ends_bind (runOn_setElem_eq hu)]
  refine Ends.bind (forM_looks (u := u) (t.arityError indices.length)
    fun x hx => checkArity_looks (ht.imp_right fun h => ⟨h.linked, h.lt_size x hx⟩)) ?_ ?_
  · -- the nodes have passed, so only an index can be at fault
    rintro ⟨⟩ s₁ ⟨hr, rfl⟩
    refine Ends.mono (checkIndices_looks ?_) ?_
    · intro x hx
      rw [Program.size_retype]
      exact hindices x hx
    rintro r s₂ ⟨hr₂, rfl⟩
    refine ⟨rfl, ?_⟩
    rw [Ruling.answer_eq_ok_iff.1 hr.symm, Option.none_or]
    exact hr₂
  · -- a node is at fault, and no index is looked at
    rintro fatal s₁ ⟨hr, rfl⟩
    obtain ⟨error, herr, rfl⟩ := Ruling.answer_eq_error_iff.1 hr.symm
    rw [herr, Option.some_or]
    exact ⟨rfl, rfl⟩

theorem checkGlobalPtr_obeys {t : Storage} {nodes : List NodeId} {indices : List StmtId}
    (hs : Ready n u s.program) (hi : s.program.instrAt u = .globalPtr nodes indices)
    (ht : excuse ∨ t.Answers nodes) :
    Ends excuse s (checkGlobalPtr t u nodes indices)
      (Obeys signature n u s (.globalPtr s.program.typeAt u t nodes indices)) := by
  cases nodes with
  | nil => exact stopAt_obeys
  | cons first rest =>
    have hindex : ∀ x ∈ indices, x < s.program.size := by
      intro x hx
      exact hs.grounded u hs.lt_size x (hi ▸ hx)
    refine (checkGlobalPtr_ends hs.lt_size hindex ht).mono ?_
    rintro r left ⟨rfl, hr⟩
    have hp := (Progress.refl n u s).own hs
      (t := ⟨(s.program.typeAt u).width, (t.nodeAt first).elem⟩)
    refine ⟨?_, hp, ?_⟩
    · -- the indices are looked at when the pointer has its type
      rw [hr, Ruling.indexErrors_congr fun x hx => hp.types x (hindex x hx)]
      rfl
    · intro hok _
      rw [Program.instrAt_retype, hi]
      rw [hok] at hr
      exact Ruling.indexErrors_eq_none_iff.1
        (Option.or_eq_none_iff.1 (Ruling.answer_eq_ok_iff.1 hr.symm)).2

theorem checkChildPtr_obeys {t : Storage} {input : StmtId} {inputNode outputNode : NodeId}
    {child : Nat} (hs : Ready n u s.program)
    (hi : s.program.instrAt u = .childPtr input inputNode child outputNode)
    (ht : excuse ∨ t.Answers [outputNode]) :
    Ends excuse s (checkChildPtr t u outputNode)
      (Obeys signature n u s (.set u (.scalar (t.nodeAt outputNode).elem))) := by
  unfold checkChildPtr
  refine (ofStorage_ends (ht.imp_right fun h => h.lt_size outputNode List.mem_cons_self)).bind ?_
    (by rintro _ _ ⟨⟨⟩, _⟩)
  rintro _ left ⟨⟨⟩, rfl⟩
  exact setType_obeys hs (by rw [hi]; trivial)

/-! ### Arguments -/

theorem checkArgLoad_obeys {arg : Nat} (hs : Ready n u s.program)
    (hi : s.program.instrAt u = .argLoad arg) :
    Ends excuse s (checkArgLoad signature u arg)
      (Obeys signature n u s (.argLoad u signature arg)) := by
  unfold checkArgLoad Ruling.argLoad
  cases signature.slot? arg with
  | none => exact stopAt_obeys
  | some slot =>
    dsimp only
    split
    · exact stopAt_obeys
    · exact setType_obeys hs (by rw [hi]; trivial)

theorem checkArgStore_obeys {arg : Nat} (hs : Ready n u s.program)
    (hi : s.program.instrAt u = .argStore arg value) :
    Ends excuse s (checkArgStore signature u arg value)
      (Obeys signature n u s (.argStore s.program.typeAt u signature arg value)) := by
  have hvalue := hs.grounded u hs.lt_size value (hi ▸ List.mem_cons_self)
  unfold checkArgStore Ruling.argStore
  cases hslot : signature.slot? arg with
  | none => exact stopAt_obeys
  | some slot =>
    dsimp only
    split
    · exact stopAt_bind_obeys
    rw [ends_bind (runOn_elemOf_eq hvalue)]
    split
    · exact stopAt_bind_obeys
    · next heq =>
      refine (ends_of_runOn (runOn_setType_eq hs.lt_size)).2
        ⟨rfl, (Progress.refl n u s).own hs, ?_⟩
      intro _ hself
      -- the value has the type that was compared, for it is not the store
      have hne := (hs.held (hi ▸ List.mem_cons_self : value ∈ _)).ne hself
      rw [Program.instrAt_retype, hi]
      refine ⟨slot, hslot, ?_⟩
      rw [Program.typeAt_retype hs.lt_size, if_neg hne]
      exact not_not.1 heq

theorem checkExternalPtr_obeys {bases indices : List StmtId} (hs : Ready n u s.program)
    (hi : s.program.instrAt u = .externalPtr bases indices) :
    Ends excuse s (checkExternalPtr u bases)
      (Obeys signature n u s (.externalPtr s.program.typeAt u bases)) := by
  cases bases with
  | nil => exact stopAt_obeys
  | cons first rest =>
    have hfirst := hs.grounded u hs.lt_size first
      (hi ▸ List.mem_append_left _ List.mem_cons_self)
    unfold checkExternalPtr
    rw [ends_bind (runOn_elemOf_eq hfirst)]
    exact setType_obeys hs (by rw [hi]; trivial)

/-! ### Loops over a range -/

/-- A constant that bounds a loop becomes a loop index. -/
private theorem forceIndexType_ends {first last bound : StmtId} {body : BlockId}
    (h : Progress n u s s₁ sets 0 []) (hs : Ready n u s.program)
    (hsize : s₁.program.size = s.program.size)
    (hinstr : s₁.program.instrAt = s.program.instrAt)
    (hi : s.program.instrAt u = .rangeFor first last body) (hb : bound = first ∨ bound = last) :
    Ends excuse s₁ (forceIndexType bound) fun r s₂ => r = .ok () ∧
      Progress n u s s₂ (sets ++ ([bound].filter fun x => (s.program.instrAt x).isConst).map
        fun x => (x, .scalar .i32)) 0 [] ∧
      s₂.program.size = s.program.size ∧ s₂.program.instrAt = s.program.instrAt := by
  -- either bound is an operand of the loop, and so exists
  have hmem : bound ∈ (s.program.instrAt u).typedOperands := by
    rw [hi]
    rcases hb with rfl | rfl
    · exact List.mem_cons_self
    · exact List.mem_cons_of_mem _ List.mem_cons_self
  have hlt : bound < s₁.program.size := hsize ▸ hs.grounded u hs.lt_size bound hmem
  have hconst : (s₁.program.stmtAt bound).instr.isConst = (s.program.instrAt bound).isConst := by
    rw [← hinstr]
    rfl
  unfold forceIndexType
  rw [ends_bind (runOn_stmt_eq hlt), hconst]
  split
  · next hc =>
    have hfilter : ([bound].filter fun x => (s.program.instrAt x).isConst) = [bound] := by
      simp [hc]
    rw [ends_of_runOn (runOn_setType_eq hlt), hfilter]
    -- no instruction is inserted or changed on the way from one bound to the other
    refine ⟨rfl, h.retype hs ?_ hlt (.inr hsize), Program.size_retype.trans hsize, ?_⟩
    · exact .bound (by rw [hinstr]; exact hi) hb (by rw [hinstr]; exact hc)
    · exact (funext fun x => Program.instrAt_retype).trans hinstr
  · next hc =>
    have hfilter : ([bound].filter fun x => (s.program.instrAt x).isConst) = [] := by
      simp [hc]
    rw [hfilter, List.map_nil, List.append_nil]
    exact ⟨rfl, h, hsize, hinstr⟩

theorem rangeFor_obeys {first last : StmtId} {body : BlockId} (hs : Ready n u s.program)
    (hi : s.program.instrAt u = .rangeFor first last body) :
    Ends excuse s (do forceIndexType first; forceIndexType last)
      (Obeys signature n u s
        (.rangeFor (fun x => (s.program.instrAt x).isConst) first last)) := by
  refine (forceIndexType_ends (.refl n u s) hs rfl rfl hi (.inl rfl)).bind ?_
    (by rintro _ _ ⟨⟨⟩, _⟩)
  rintro _ s₁ ⟨-, hp, hsize, hinstr⟩
  refine (forceIndexType_ends hp hs hsize hinstr hi (.inr rfl)).mono ?_
  rintro _ s₂ ⟨rfl, hp₂, -, hinstr₂⟩
  refine ⟨rfl, ?_, ?_⟩
  · -- the ruling lists both bounds at once
    have hsets : ([first, last].filter fun x => (s.program.instrAt x).isConst) =
        ([first].filter fun x => (s.program.instrAt x).isConst) ++
          [last].filter fun x => (s.program.instrAt x).isConst := by
      rw [← List.filter_append]
      rfl
    unfold Ruling.rangeFor
    rw [hsets, List.map_append]
    exact hp₂
  · intro _ _
    rw [hinstr₂, hi]
    trivial

/-! ### Every rule -/

/-- **Every typing rule obeys its ruling.** -/
theorem rule_obeys (hs : Ready n u s.program)
    (ht : excuse ∨ ctx.storage.Answers (s.program.instrAt u).nodes) :
    Ends excuse s (rule ctx u (s.program.instrAt u))
      (Obeys ctx.signature n u s
        (ruling ctx (fun x => (s.program.instrAt x).isConst) s.program.typeAt u
          (s.program.instrAt u))) := by
  -- one case for each instruction; control instructions are typed by no rule
  cases hi : s.program.instrAt u with
  | alloca | const | branch | structFor | whileLoop | offloaded =>
    exact pure_obeys (by rw [hi]; trivial)
  | rangeFor first last body => exact rangeFor_obeys hs hi
  | localLoad slot => exact checkLocalLoad_obeys hs hi
  | localStore slot value => exact checkLocalStore_obeys hs hi
  | globalLoad ptr =>
    have hptr := hs.grounded u hs.lt_size ptr (hi ▸ List.mem_cons_self)
    unfold rule
    rw [ends_bind (runOn_typeOf_eq hptr)]
    exact setType_obeys hs (by rw [hi]; trivial)
  | globalStore ptr value => exact checkGlobalStore_obeys hs hi
  | atomic op dest value => exact checkAtomic_obeys hs hi
  | globalPtr =>
    rw [hi] at ht
    exact checkGlobalPtr_obeys hs hi ht
  | storageOp | loopIndex => exact setType_obeys hs (by rw [hi]; trivial)
  | unary op operand => exact checkUnary_obeys hs hi
  | binary op lhs rhs => exact checkBinary_obeys hs hi
  | ternary op cond onTrue onFalse => exact checkTernary_obeys hs hi
  | shuffle lanes => exact checkShuffle_obeys hs hi
  | assumeInRange input base low high => exact checkRangeAssumption_obeys hs hi
  | argLoad arg => exact checkArgLoad_obeys hs hi
  | argStore arg value => exact checkArgStore_obeys hs hi
  | externalPtr bases indices => exact checkExternalPtr_obeys hs hi
  | childPtr =>
    rw [hi] at ht
    exact checkChildPtr_obeys hs hi ht

end Checker

end TensorKernel
