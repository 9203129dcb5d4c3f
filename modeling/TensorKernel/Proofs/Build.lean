import TensorKernel.Program.Builder
import TensorKernel.Proofs.Tree

/-!
# What is built

Building keeps the representation sound: numbers agree with places, every instruction is listed
once, and no instruction nests a block that does not exist (`build_coherent`, `build_nested`). If
control instructions come only from the control steps, what is built is a tree (`build_tree`).

Both follow from one induction over the steps (`Step.run_keeps`), in which a property may mention
the blocks that are open: created, and not yet nested anywhere.
-/

namespace TensorKernel

namespace Program

open Fault (bind_eq_ok_iff)

variable {p q : Program} {x id : StmtId} {b block : BlockId} {instr : Instr} {span : Span}

/-! ### Appending an instruction -/

theorem blocks_of_modifyBlock {f : Block → Block} (h : p.modifyBlock b f = .ok q) :
    b < p.blocks.size ∧ q.blocks.size = p.blocks.size ∧
      ∀ c, q.blockAt c = if c = b then f (p.blockAt c) else p.blockAt c := by
  obtain ⟨k, hk, rfl⟩ := modifyBlock_eq_ok_iff.1 h
  have hb : b < p.blocks.size := (Array.getElem?_eq_some_iff.1 hk).1
  refine ⟨hb, by simp, ?_⟩
  intro c
  rw [blockAt, blockAt, Array.getElem?_setIfInBounds]
  by_cases hc : b = c
  · subst hc
    -- the block that is modified, and all others
    rw [if_pos rfl, if_pos hb, if_pos rfl, hk]
    rfl
  · rw [if_neg hc, if_neg (fun h => hc h.symm)]

/-- Adopting blocks changes no list. -/
theorem listAt_of_adopt {owner : StmtId} {bs : List BlockId} (h : p.adopt owner bs = .ok q) :
    (∀ b ∈ bs, b < p.blocks.size) ∧ q.blocks.size = p.blocks.size ∧
      ∀ c, q.listAt c = p.listAt c := by
  induction bs generalizing p with
  | nil => cases h; exact ⟨fun _ hb => (nomatch hb), rfl, fun _ => rfl⟩
  | cons b bs ih =>
    -- the first block changes its parent, the others are adopted after it
    obtain ⟨r, hr, h⟩ := bind_eq_ok_iff.1 h
    obtain ⟨hb, hsize, hblock⟩ := blocks_of_modifyBlock hr
    obtain ⟨hbs, hsize', hlist⟩ := ih h
    refine ⟨?_, hsize'.trans hsize, fun c => (hlist c).trans ?_⟩
    · intro c hc
      rcases List.mem_cons.1 hc with rfl | hc
      · exact hb
      · exact hsize ▸ hbs c hc
    · rw [listAt, hblock, listAt]
      split <;> rfl

/-- Adopted blocks have the owner as their parent, and no other block has another one. -/
theorem parentAt_of_adopt {owner : StmtId} {bs : List BlockId} (h : p.adopt owner bs = .ok q)
    (c : BlockId) : q.parentAt c = if c ∈ bs then some owner else p.parentAt c := by
  induction bs generalizing p with
  | nil =>
    cases h
    exact (if_neg List.not_mem_nil).symm
  | cons b bs ih =>
    obtain ⟨r, hr, h⟩ := bind_eq_ok_iff.1 h
    -- the first block is adopted, and the rest by induction; the same owner may come twice
    obtain ⟨-, -, hblock⟩ := blocks_of_modifyBlock hr
    have hfirst : r.parentAt c = if c = b then some owner else p.parentAt c := by
      rw [parentAt, hblock, parentAt]
      split <;> rfl
    rw [ih h, hfirst]
    by_cases hcb : c = b <;> simp [hcb]

theorem exists_adopt {owner : StmtId} {bs : List BlockId} (h : ∀ b ∈ bs, b < p.blocks.size) :
    ∃ q, p.adopt owner bs = .ok q := by
  induction bs generalizing p with
  | nil => exact ⟨p, rfl⟩
  | cons b bs ih =>
    have hmodify := modifyBlock_eq (f := ({ · with parent := some owner }))
      (h b List.mem_cons_self)
    obtain ⟨-, hsize, -⟩ := blocks_of_modifyBlock hmodify
    obtain ⟨q, hq⟩ := ih (p := _) fun c hc => hsize ▸ h c (List.mem_cons_of_mem _ hc)
    exact ⟨q, bind_eq_ok_iff.2 ⟨_, hmodify, hq⟩⟩

/-- **Appending succeeds** in a block that exists, if the blocks exist that the new instruction
nests. -/
theorem exists_push (hblock : block < p.blocks.size)
    (hnested : ∀ b ∈ instr.blocks, b < p.blocks.size) :
    ∃ q, p.push block instr span = .ok (q, p.size) := by
  obtain ⟨r, hadopt⟩ : ∃ r, p.adopt p.size instr.blocks = .ok r := exists_adopt hnested
  obtain ⟨-, hsize, -⟩ := listAt_of_adopt hadopt
  have halloc : p.alloc block instr span =
      .ok (⟨r.stmts.push ⟨p.size, span, instr.initialType, instr, block⟩, r.blocks⟩, p.size) :=
    bind_eq_ok_iff.2 ⟨r, hadopt, rfl⟩
  have hlt : block < r.blocks.size := hsize ▸ hblock
  simp only [push, bind_eq_ok_iff]
  exact ⟨_, _, halloc, _, modifyBlock_eq hlt, rfl⟩

/-- **Appending an instruction** adds it to the end of its block, where nothing else changes. -/
structure Pushed (p : Program) (block : BlockId) (instr : Instr) (q : Program) : Prop where
  size : q.size = p.size + 1
  blocks_size : q.blocks.size = p.blocks.size
  nested : ∀ b ∈ instr.blocks, b < p.blocks.size
  old : ∀ x < p.size, q.stmtAt x = p.stmtAt x
  id_eq : (q.stmtAt p.size).id = p.size
  home : q.homeAt p.size = block
  instr_eq : q.instrAt p.size = instr
  list : ∀ c, q.listAt c = if c = block then p.listAt c ++ [p.size] else p.listAt c
  parent : ∀ c, q.parentAt c = if c ∈ instr.blocks then some p.size else p.parentAt c

theorem pushed_of_push (h : p.push block instr span = .ok (q, id)) : Pushed p block instr q := by
  have hstmts := (stmts_of_push h).2
  obtain rfl := (stmts_of_push h).1
  obtain ⟨⟨r, new⟩, halloc, h⟩ := bind_eq_ok_iff.1 h
  obtain ⟨r', hmodify, h⟩ := bind_eq_ok_iff.1 h
  cases h
  obtain ⟨r'', hadopt, h⟩ := bind_eq_ok_iff.1 halloc
  cases h
  -- adopting changes parents only, and the one change of a block appends the new number
  obtain ⟨hnested, hsize, hlist⟩ := listAt_of_adopt hadopt
  obtain ⟨-, hsize', hblocks⟩ := blocks_of_modifyBlock hmodify
  have hnew : q.stmtAt p.size = ⟨p.size, span, instr.initialType, instr, block⟩ := by
    rw [stmtAt, hstmts, Program.size, Array.getElem?_push_size, Option.getD_some]
  refine ⟨?_, hsize'.trans hsize, hnested, ?_, by rw [hnew],
    by rw [homeAt, hnew], by rw [instrAt, hnew], ?_, ?_⟩
  · rw [Program.size, hstmts, Array.size_push, Program.size]
  · intro x hx
    rw [stmtAt, hstmts, Array.getElem?_push_lt hx, stmtAt, Array.getElem?_eq_getElem hx]
  · intro c
    rw [listAt, hblocks]
    split
    · exact congrArg (· ++ [p.size]) (hlist c)
    · exact hlist c
  · intro c
    rw [← parentAt_of_adopt hadopt, parentAt, hblocks, parentAt]
    split <;> rfl

theorem Pushed.added (h : Pushed p block instr q) : Added p block q where
  size := h.size
  blocks_size := h.blocks_size
  old := h.old
  id_eq := h.id_eq
  home := h.home
  list := by
    -- nothing comes behind what is appended
    refine ⟨p.listAt block, [], (List.append_nil _).symm, ?_⟩
    rw [h.list, if_pos rfl]
  others b hb := by rw [h.list, if_neg hb]

theorem Pushed.coherent (h : Pushed p block instr q) (hp : p.Coherent) : q.Coherent :=
  h.added.coherent hp

theorem Coherent.newBlock (hp : p.Coherent) : p.newBlock.1.Coherent := by
  -- a block that is not there lists nothing, and neither does a new one
  have hlist : ∀ c, p.newBlock.1.listAt c = p.listAt c := by
    intro c
    unfold Program.newBlock listAt blockAt
    rw [Array.getElem?_push]
    split
    · next hc =>
      rw [hc, Array.getElem?_eq_none (Nat.le_refl _)]
      rfl
    · rfl
  exact
    { root_lt := by
        show root < (p.blocks.push {}).size
        rw [Array.size_push]
        exact Nat.lt_succ_of_lt hp.root_lt
      id_eq := hp.id_eq
      listed := fun x hx => (hlist _).symm ▸ hp.listed x hx
      owned := fun c x hx => hp.owned c x (hlist c ▸ hx)
      nodup := fun c => (hlist c).symm ▸ hp.nodup c }

theorem coherent_empty : empty.Coherent where
  root_lt := Nat.zero_lt_one
  id_eq x hx := absurd hx (Nat.not_lt_zero x)
  listed x hx := absurd hx (Nat.not_lt_zero x)
  owned c x hx := by
    obtain rfl : c = root := Nat.lt_one_iff.1 (lt_size_of_mem_listAt hx)
    cases hx
  nodup c := by
    rcases Nat.lt_or_ge c 1 with hc | hc
    · -- there is one block, and it is empty; what is not there lists nothing either
      obtain rfl : c = root := Nat.lt_one_iff.1 hc
      exact List.nodup_nil
    · rw [listAt_of_size_le hc]
      exact List.nodup_nil

end Program

/-! ### The induction over the steps -/

mutual

/-- Control instructions come from control steps only. -/
def Step.Structured : Step → Prop
  | .setSpan _ | .typed _ _ => True
  | .emit instr => instr.blocks = []
  | .ifThen _ body | .rangeFor _ _ body | .structFor _ body | .whileLoop body
  | .offloaded _ body => Step.AllStructured body
  | .ifElse _ onTrue onFalse => Step.AllStructured onTrue ∧ Step.AllStructured onFalse

def Step.AllStructured : List Step → Prop
  | [] => True
  | step :: rest => step.Structured ∧ Step.AllStructured rest

end

/-- What has to be shown of a property of the program and the blocks that are open, for building to
keep it. -/
structure Keeps (structured : Prop) (J : List BlockId → Program → Prop) : Prop where
  perm : ∀ {o o' p}, o.Perm o' → J o p → J o' p
  retype : ∀ {o p x t}, J o p → J o (p.retype x t)
  newBlock : ∀ {o p}, J o p → J (p.blocks.size :: o) p.newBlock.1
  /-- The blocks that an instruction nests are open before it is appended. -/
  push : ∀ {o p q block instr}, J (instr.blocks ++ o) p → p.Pushed block instr q → J o q
  /-- An instruction that no control step brings nests nothing, or openness plays no role. -/
  emit : ∀ {o p instr}, (structured → Instr.blocks instr = []) → J o p → J (instr.blocks ++ o) p

namespace Keeps

variable {structured : Prop} {J : List BlockId → Program → Prop} {opened : List BlockId}
  {block : BlockId} {instr : Instr} {d d' : Draft} {id : StmtId}

theorem draft_push (h : Keeps structured J) (hd : J (instr.blocks ++ opened) d.program)
    (hrun : d.push block instr = .ok (d', id)) : J opened d'.program := by
  obtain ⟨⟨p, new⟩, hpush, hrun⟩ := Fault.bind_eq_ok_iff.1 hrun
  cases hrun
  exact h.push hd (Program.pushed_of_push hpush)

end Keeps

section Keeping

variable {structured : Prop} {J : List BlockId → Program → Prop}

mutual

/-- **What building keeps**, step by step. -/
theorem Step.run_keeps (h : Keeps structured J) (step : Step) {block : BlockId}
    {opened : List BlockId} {d d' : Draft} {ids : List StmtId} (hs : structured → step.Structured)
    (hd : J opened d.program) (hrun : Step.run block step d = .ok (d', ids)) :
    J opened d'.program := by
  match step with
  | .setSpan span =>
    cases hrun
    exact hd
  | .typed id type =>
    obtain ⟨p, hp, hrun⟩ := Fault.bind_eq_ok_iff.1 hrun
    cases hrun
    -- the instruction exists, or the step would have failed
    rw [Program.setType_eq (Program.lt_size_of_modifyStmt hp)] at hp
    cases hp
    exact h.retype hd
  | .emit instr =>
    obtain ⟨⟨d₁, id⟩, hpush, hrun⟩ := Fault.bind_eq_ok_iff.1 hrun
    cases hrun
    exact h.draft_push (h.emit hs hd) hpush
  | .ifThen cond body =>
    obtain ⟨⟨d₁, ids₁⟩, hbody, hrun⟩ := Fault.bind_eq_ok_iff.1 hrun
    obtain ⟨⟨d₂, id⟩, hpush, hrun⟩ := Fault.bind_eq_ok_iff.1 hrun
    cases hrun
    -- the block is open while it is filled, and nested right after
    have hinner := Step.runAll_keeps h body hs (h.newBlock hd) hbody
    refine h.draft_push ?_ hpush
    exact hinner
  | .ifElse cond onTrue onFalse =>
    obtain ⟨⟨d₁, ids₁⟩, htrue, hrun⟩ := Fault.bind_eq_ok_iff.1 hrun
    obtain ⟨⟨d₂, ids₂⟩, hfalse, hrun⟩ := Fault.bind_eq_ok_iff.1 hrun
    obtain ⟨⟨d₃, id⟩, hpush, hrun⟩ := Fault.bind_eq_ok_iff.1 hrun
    cases hrun
    have h₁ := Step.runAll_keeps h onTrue (fun h => (hs h).1) (h.newBlock hd) htrue
    have h₂ := Step.runAll_keeps h onFalse (fun h => (hs h).2) (h.newBlock h₁) hfalse
    refine h.draft_push ?_ hpush
    -- the second block was opened last
    exact h.perm (.swap _ _ _) h₂
  | .rangeFor first last body =>
    obtain ⟨⟨d₁, id⟩, hpush, hrun⟩ := Fault.bind_eq_ok_iff.1 hrun
    obtain ⟨⟨d₂, ids₂⟩, hbody, hrun⟩ := Fault.bind_eq_ok_iff.1 hrun
    cases hrun
    -- the loop nests its block before that is filled
    refine Step.runAll_keeps h body hs (h.draft_push ?_ hpush) hbody
    exact h.newBlock hd
  | .structFor node body =>
    obtain ⟨⟨d₁, id⟩, hpush, hrun⟩ := Fault.bind_eq_ok_iff.1 hrun
    obtain ⟨⟨d₂, ids₂⟩, hbody, hrun⟩ := Fault.bind_eq_ok_iff.1 hrun
    cases hrun
    -- as for a range
    refine Step.runAll_keeps h body hs (h.draft_push ?_ hpush) hbody
    exact h.newBlock hd
  | .whileLoop body =>
    obtain ⟨⟨d₁, ids₁⟩, hbody, hrun⟩ := Fault.bind_eq_ok_iff.1 hrun
    obtain ⟨⟨d₂, id⟩, hpush, hrun⟩ := Fault.bind_eq_ok_iff.1 hrun
    cases hrun
    -- as for a branch with one block
    have hinner := Step.runAll_keeps h body hs (h.newBlock hd) hbody
    refine h.draft_push ?_ hpush
    exact hinner
  | .offloaded task body =>
    obtain ⟨⟨d₁, ids₁⟩, hbody, hrun⟩ := Fault.bind_eq_ok_iff.1 hrun
    obtain ⟨⟨d₂, id⟩, hpush, hrun⟩ := Fault.bind_eq_ok_iff.1 hrun
    cases hrun
    -- as for a branch with one block
    have hinner := Step.runAll_keeps h body hs (h.newBlock hd) hbody
    refine h.draft_push ?_ hpush
    exact hinner

theorem Step.runAll_keeps (h : Keeps structured J) (steps : List Step) {block : BlockId}
    {opened : List BlockId} {d d' : Draft} {ids : List StmtId}
    (hs : structured → Step.AllStructured steps) (hd : J opened d.program)
    (hrun : Step.runAll block steps d = .ok (d', ids)) : J opened d'.program := by
  match steps with
  | [] =>
    cases hrun
    exact hd
  | step :: rest =>
    obtain ⟨⟨d₁, ids₁⟩, hstep, hrun⟩ := Fault.bind_eq_ok_iff.1 hrun
    obtain ⟨⟨d₂, ids₂⟩, hrest, hrun⟩ := Fault.bind_eq_ok_iff.1 hrun
    cases hrun
    exact Step.runAll_keeps h rest (fun h => (hs h).2)
      (Step.run_keeps h step (fun h => (hs h).1) hd hstep) hrest

end

theorem Keeps.build (h : Keeps structured J) {steps : List Step} {p : Program}
    {ids : List StmtId} (hs : structured → Step.AllStructured steps) (hempty : J [] .empty)
    (hbuild : Program.build steps = .ok (p, ids)) : J [] p := by
  obtain ⟨⟨d, made⟩, hrun, hbuild⟩ := Fault.bind_eq_ok_iff.1 hbuild
  cases hbuild
  exact Step.runAll_keeps h steps hs hempty hrun

end Keeping

/-! ### What is built -/

namespace Program

variable {p q : Program} {b block : BlockId} {instr : Instr} {steps : List Step}
  {ids : List StmtId} {opened : List BlockId}

theorem Pushed.nested_of (h : Pushed p block instr q) (hp : p.Nested) : q.Nested := by
  intro x hx b hb
  rw [h.size] at hx
  rw [h.blocks_size]
  rcases Nat.lt_succ_iff_lt_or_eq.1 hx with hx | rfl
  · rw [instrAt, h.old x hx] at hb
    exact hp x hx b hb
  · rw [h.instr_eq] at hb
    exact h.nested b hb

theorem Nested.newBlock (hp : p.Nested) : p.newBlock.1.Nested := by
  intro x hx b hb
  show b < (p.blocks.push {}).size
  rw [Array.size_push]
  exact Nat.lt_succ_of_lt (hp x hx b hb)

theorem Nested.retype {x : StmtId} {t : VectorType} (hp : p.Nested) :
    (p.retype x t).Nested := by
  intro y hy b hb
  rw [size_retype] at hy
  rw [instrAt_retype] at hb
  exact hp y hy b hb

private theorem keeps_coherent : Keeps False fun _ p => p.Coherent ∧ p.Nested where
  perm _ h := h
  retype h := ⟨h.1.retype, h.2.retype⟩
  newBlock h := ⟨h.1.newBlock, h.2.newBlock⟩
  push h hpush := ⟨hpush.coherent h.1, hpush.nested_of h.2⟩
  emit _ h := h

private theorem coherent_nested_of_build (h : build steps = .ok (p, ids)) :
    p.Coherent ∧ p.Nested :=
  keeps_coherent.build False.elim
    ⟨coherent_empty, fun x hx => absurd hx (Nat.not_lt_zero x)⟩ h

/-- **What is built is coherent**, whatever is appended. -/
theorem build_coherent (h : build steps = .ok (p, ids)) : p.Coherent :=
  (coherent_nested_of_build h).1

theorem build_nested (h : build steps = .ok (p, ids)) : p.Nested :=
  (coherent_nested_of_build h).2

/-- Every block but the root is nested in one place or open. -/
private def Placed (opened : List BlockId) (p : Program) : Prop :=
  (root :: (p.slots ++ opened)).Perm (List.range p.blocks.size)

theorem Pushed.slots_eq (h : Pushed p block instr q) : q.slots = p.slots ++ instr.blocks := by
  -- the slots go by number, and the new instruction has the last one
  have hold : ∀ x ∈ List.range p.size, (q.instrAt x).blocks = (p.instrAt x).blocks := by
    intro x hx
    rw [instrAt, h.old x (List.mem_range.1 hx), instrAt]
  rw [slots, h.size, List.range_succ, List.flatMap_append, List.flatMap_congr hold,
    List.flatMap_singleton, h.instr_eq, slots]

theorem slots_retype {x : StmtId} {t : VectorType} : (p.retype x t).slots = p.slots := by
  simp only [slots, size_retype, instrAt_retype]

private theorem keeps_placed : Keeps True Placed where
  perm ho h := ((ho.symm.append_left _).cons _).trans h
  retype h := by
    unfold Placed
    rw [slots_retype]
    exact h
  newBlock {o p} h := by
    unfold Placed
    -- the new block has the number that the range is extended by
    change (root :: (p.slots ++ p.blocks.size :: o)).Perm (List.range (p.blocks.push {}).size)
    rw [Array.size_push, List.range_succ]
    have hmiddle : (root :: (p.slots ++ p.blocks.size :: o)).Perm
        (p.blocks.size :: root :: (p.slots ++ o)) :=
      (List.perm_middle.cons _).trans (.swap _ _ _)
    exact hmiddle.trans ((h.cons _).trans (List.perm_append_singleton _ _).symm)
  push {o p q block instr} h hpush := by
    -- what was open is nested now, at the end of the slots
    unfold Placed
    rw [hpush.slots_eq, hpush.blocks_size, List.append_assoc]
    exact h
  emit hs h := by rw [hs trivial]; exact h

/-- **What is built of control steps is a tree.** -/
theorem build_tree (h : build steps = .ok (p, ids)) (hs : Step.AllStructured steps) : p.Tree := by
  -- in the end no block is open
  have hplaced : (root :: (p.slots ++ [])).Perm (List.range p.blocks.size) :=
    keeps_placed.build (fun _ => hs) (.refl _) h
  rw [List.append_nil] at hplaced
  -- a permutation of a range: each block comes once, and the root is not among the slots
  have hnodup := List.nodup_cons.1 (hplaced.nodup_iff.2 List.nodup_range)
  refine ⟨hnodup.2, ?_⟩
  intro b
  have hmem : b ∈ root :: p.slots ↔ b < p.blocks.size := hplaced.mem_iff.trans List.mem_range
  rw [← hmem, List.mem_cons]
  constructor
  · intro hb
    exact ⟨fun hroot => hnodup.1 (hroot ▸ hb), .inr hb⟩
  · rintro ⟨hne, hb⟩
    exact hb.resolve_left hne

end Program

end TensorKernel
