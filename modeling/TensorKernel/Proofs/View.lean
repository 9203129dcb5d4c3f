import Mathlib.Data.List.InsertIdx
import Mathlib.Tactic.ByContra
import TensorKernel.Program.Changes

/-!
# Total views of a program

Following a reference can fail, and a statement about a whole run should not have to say so at
every step. `Program.stmtAt` and its companions read a program without failing: a number that
refers to nothing is read as an untyped slot in the root block, and a block that does not exist as
an empty one. `Program.retype`, `Program.rewrite` and `Program.splice` change a program in the
same way, and agree with `setType`, `setInstr` and the insertion of a conversion wherever these
succeed.

* `Coherent` is the invariant of the representation: numbers agree with places, and every
  instruction is listed once, in the block that owns it and in no other;
* `Added` is what every growth of a program has in common, and keeps the representation;
* `setType_eq`, `setInstr_eq`, `setElem_eq` and `insert_eq` say that on a coherent program the
  failing operations are the total ones, for numbers that refer to something.
-/

namespace TensorKernel.Program

variable {p : Program} {x y id : StmtId} {b : BlockId}

/-! ### Reading -/

/-- The instruction of a number, in its place. -/
def stmtAt (p : Program) (id : StmtId) : Stmt :=
  (p.stmts[id]?).getD ⟨id, .dummy, .unknown, .alloca, root⟩

def typeAt (p : Program) (id : StmtId) : VectorType := (p.stmtAt id).type

def instrAt (p : Program) (id : StmtId) : Instr := (p.stmtAt id).instr

def spanAt (p : Program) (id : StmtId) : Span := (p.stmtAt id).span

/-- The block that owns an instruction. -/
def homeAt (p : Program) (id : StmtId) : BlockId := (p.stmtAt id).block

def blockAt (p : Program) (id : BlockId) : Block := (p.blocks[id]?).getD {}

/-- The instructions of a block, in order. -/
def listAt (p : Program) (id : BlockId) : List StmtId := (p.blockAt id).stmts

/-- The control instruction that adopted a block. -/
def parentAt (p : Program) (id : BlockId) : Option StmtId := (p.blockAt id).parent

theorem stmt_eq (h : x < p.size) : p.stmt x = .ok (p.stmtAt x) := by
  have hx : p.stmts[x]? = some p.stmts[x] := Array.getElem?_eq_getElem h
  rw [stmt_eq_ok_iff, stmtAt, hx, Option.getD_some]

theorem typeOf_eq (h : x < p.size) : p.typeOf x = .ok (p.typeAt x) := by
  rw [typeOf, stmt_eq h]
  rfl

theorem block_eq (h : b < p.blocks.size) : p.block b = .ok (p.blockAt b) := by
  have hb : p.blocks[b]? = some p.blocks[b] := Array.getElem?_eq_getElem h
  rw [block_eq_ok_iff, blockAt, hb, Option.getD_some]

theorem lt_size_of_stmt {s : Stmt} (h : p.stmt x = .ok s) : x < p.size ∧ s = p.stmtAt x := by
  rw [stmt_eq_ok_iff] at h
  refine ⟨(Array.getElem?_eq_some_iff.1 h).1, ?_⟩
  rw [stmtAt, h, Option.getD_some]

theorem lt_size_of_block {k : Block} (h : p.block b = .ok k) :
    b < p.blocks.size ∧ k = p.blockAt b := by
  rw [block_eq_ok_iff] at h
  refine ⟨(Array.getElem?_eq_some_iff.1 h).1, ?_⟩
  rw [blockAt, h, Option.getD_some]

theorem stmtAt_of_size_le (h : p.size ≤ x) : p.stmtAt x = ⟨x, .dummy, .unknown, .alloca, root⟩ := by
  rw [stmtAt, Array.getElem?_eq_none h, Option.getD_none]

theorem instrAt_of_size_le (h : p.size ≤ x) : p.instrAt x = .alloca := by
  rw [instrAt, stmtAt_of_size_le h]

/-- Only an instruction that exists is anything but a slot. -/
theorem lt_size_of_instrAt_ne (h : p.instrAt x ≠ .alloca) : x < p.size := by
  by_contra hx
  exact h (instrAt_of_size_le (Nat.le_of_not_lt hx))

theorem listAt_of_size_le (h : p.blocks.size ≤ b) : p.listAt b = [] := by
  rw [listAt, blockAt, Array.getElem?_eq_none h, Option.getD_none]

/-- Only a block that exists lists anything. -/
theorem lt_size_of_mem_listAt (h : x ∈ p.listAt b) : b < p.blocks.size := by
  by_contra hb
  rw [listAt_of_size_le (Nat.le_of_not_lt hb)] at h
  cases h

/-! ### The invariant of the representation -/

/-- Numbers agree with places, and the lists of the blocks with the blocks that the instructions
name as their owners. -/
structure Coherent (p : Program) : Prop where
  /-- There is a root block. -/
  root_lt : root < p.blocks.size
  /-- An instruction carries the number it is found under. -/
  id_eq : ∀ x < p.size, (p.stmtAt x).id = x
  /-- An instruction is listed by the block that owns it. -/
  listed : ∀ x < p.size, x ∈ p.listAt (p.homeAt x)
  /-- What a block lists exists and is owned by that block. -/
  owned : ∀ b, ∀ x ∈ p.listAt b, x < p.size ∧ p.homeAt x = b
  /-- No block lists an instruction twice. -/
  nodup : ∀ b, (p.listAt b).Nodup

/-! ### Changing one instruction -/

/-- Changes the type of a result. -/
def retype (p : Program) (id : StmtId) (type : VectorType) : Program :=
  { p with stmts := p.stmts.modify id ({ · with type }) }

/-- Changes what an instruction does. -/
def rewrite (p : Program) (id : StmtId) (instr : Instr) : Program :=
  { p with stmts := p.stmts.modify id ({ · with instr }) }

private theorem modify_eq_setIfInBounds {α : Type} {a : Array α} {i : Nat} {f : α → α}
    (h : i < a.size) : a.modify i f = a.setIfInBounds i (f a[i]) := by
  apply Array.ext
  · simp
  intro j h₁ h₂
  have hj : j < a.size := by simpa using h₁
  rw [Array.getElem_modify, Array.getElem_setIfInBounds hj]
  split
  · next hij => subst hij; rfl
  · rfl

/-- Only an instruction that exists can be changed. -/
theorem lt_size_of_modifyStmt {q : Program} {f : Stmt → Stmt} (h : p.modifyStmt x f = .ok q) :
    x < p.size := by
  obtain ⟨s, hs, -⟩ := modifyStmt_eq_ok_iff.1 h
  exact (Array.getElem?_eq_some_iff.1 hs).1

private theorem modifyStmt_eq {f : Stmt → Stmt} (h : x < p.size) :
    p.modifyStmt x f = .ok { p with stmts := p.stmts.modify x f } := by
  have hx : p.stmts[x]? = some p.stmts[x] := Array.getElem?_eq_getElem h
  rw [modifyStmt_eq_ok_iff]
  refine ⟨p.stmts[x], hx, ?_⟩
  rw [modify_eq_setIfInBounds h]

theorem setType_eq {t : VectorType} (h : x < p.size) : p.setType x t = .ok (p.retype x t) :=
  modifyStmt_eq h

theorem setInstr_eq {i : Instr} (h : x < p.size) : p.setInstr x i = .ok (p.rewrite x i) :=
  modifyStmt_eq h

/-- To set an element type is to set the type with the width that is there. -/
theorem setElem_eq {t : ElementType} (h : x < p.size) :
    p.setElem x t = .ok (p.retype x ⟨(p.typeAt x).width, t⟩) := by
  have hs : p.stmtAt x = p.stmts[x] := by
    rw [stmtAt, Array.getElem?_eq_getElem h, Option.getD_some]
  -- the two changes differ in how they come by the width, and only for `x`
  have hm : p.stmts.modify x (fun s => { s with type := { s.type with elem := t } }) =
      p.stmts.modify x ({ · with type := ⟨(p.typeAt x).width, t⟩ }) := by
    apply Array.ext
    · simp
    intro i h₁ h₂
    rw [Array.getElem_modify, Array.getElem_modify]
    split
    · next hix =>
      subst hix
      simp only [typeAt, hs]
      rfl
    · rfl
  rw [setElem, modifyStmt_eq h, hm, retype]

section Modify

variable {t : VectorType} {i : Instr}

@[simp] theorem size_retype : (p.retype id t).size = p.size := by simp [size, retype]

@[simp] theorem size_rewrite : (p.rewrite id i).size = p.size := by simp [size, rewrite]

@[simp] theorem listAt_retype : (p.retype id t).listAt b = p.listAt b := rfl

@[simp] theorem listAt_rewrite : (p.rewrite id i).listAt b = p.listAt b := rfl

private theorem stmtAt_modify {f : Stmt → Stmt} :
    stmtAt { p with stmts := p.stmts.modify id f } x =
      if x = id ∧ id < p.size then f (p.stmtAt x) else p.stmtAt x := by
  unfold stmtAt size
  rw [Array.getElem?_modify]
  by_cases hx : id = x
  · subst hx
    rcases Nat.lt_or_ge id p.stmts.size with hlt | hge
    · simp [hlt]
    · -- out of bounds nothing is changed, and the default is read before and after
      simp [Nat.not_lt.2 hge]
  · rw [if_neg hx, if_neg (fun h => hx h.1.symm)]

theorem stmtAt_retype :
    (p.retype id t).stmtAt x =
      if x = id ∧ id < p.size then { p.stmtAt x with type := t } else p.stmtAt x :=
  stmtAt_modify

theorem stmtAt_rewrite :
    (p.rewrite id i).stmtAt x =
      if x = id ∧ id < p.size then { p.stmtAt x with instr := i } else p.stmtAt x :=
  stmtAt_modify

theorem typeAt_retype (h : id < p.size) :
    (p.retype id t).typeAt x = if x = id then t else p.typeAt x := by
  rw [typeAt, stmtAt_retype, typeAt]
  by_cases hx : x = id <;> simp [hx, h]

@[simp] theorem typeAt_rewrite : (p.rewrite id i).typeAt x = p.typeAt x := by
  rw [typeAt, stmtAt_rewrite, typeAt]
  split <;> rfl

@[simp] theorem instrAt_retype : (p.retype id t).instrAt x = p.instrAt x := by
  rw [instrAt, stmtAt_retype, instrAt]
  split <;> rfl

theorem instrAt_rewrite (h : id < p.size) :
    (p.rewrite id i).instrAt x = if x = id then i else p.instrAt x := by
  rw [instrAt, stmtAt_rewrite, instrAt]
  by_cases hx : x = id <;> simp [hx, h]

theorem instrAt_rewrite_self (h : id < p.size) : (p.rewrite id i).instrAt id = i := by
  rw [instrAt_rewrite h, if_pos rfl]

@[simp] theorem homeAt_retype : (p.retype id t).homeAt x = p.homeAt x := by
  rw [homeAt, stmtAt_retype, homeAt]
  split <;> rfl

@[simp] theorem homeAt_rewrite : (p.rewrite id i).homeAt x = p.homeAt x := by
  rw [homeAt, stmtAt_rewrite, homeAt]
  split <;> rfl

@[simp] theorem spanAt_retype : (p.retype id t).spanAt x = p.spanAt x := by
  rw [spanAt, stmtAt_retype, spanAt]
  split <;> rfl

@[simp] theorem spanAt_rewrite : (p.rewrite id i).spanAt x = p.spanAt x := by
  rw [spanAt, stmtAt_rewrite, spanAt]
  split <;> rfl

@[simp] theorem id_stmtAt_retype : ((p.retype id t).stmtAt x).id = (p.stmtAt x).id := by
  rw [stmtAt_retype]
  split <;> rfl

@[simp] theorem id_stmtAt_rewrite : ((p.rewrite id i).stmtAt x).id = (p.stmtAt x).id := by
  rw [stmtAt_rewrite]
  split <;> rfl

theorem Coherent.retype (h : p.Coherent) : (p.retype id t).Coherent where
  root_lt := h.root_lt
  id_eq x hx := by rw [id_stmtAt_retype]; exact h.id_eq x (by simpa using hx)
  listed x hx := by rw [homeAt_retype, listAt_retype]; exact h.listed x (by simpa using hx)
  owned b x hx := by rw [size_retype, homeAt_retype]; exact h.owned b x hx
  nodup := h.nodup

theorem Coherent.rewrite (h : p.Coherent) : (p.rewrite id i).Coherent where
  root_lt := h.root_lt
  id_eq x hx := by rw [id_stmtAt_rewrite]; exact h.id_eq x (by simpa using hx)
  listed x hx := by rw [homeAt_rewrite, listAt_rewrite]; exact h.listed x (by simpa using hx)
  owned b x hx := by rw [size_rewrite, homeAt_rewrite]; exact h.owned b x hx
  nodup := h.nodup

end Modify

/-! ### One instruction more -/

/-- **One instruction is added** to a block: it has the next free number and stands somewhere in
the list of the block, and all that was there is as it was. -/
structure Added (p : Program) (block : BlockId) (q : Program) : Prop where
  size : q.size = p.size + 1
  blocks_size : q.blocks.size = p.blocks.size
  old : ∀ x < p.size, q.stmtAt x = p.stmtAt x
  id_eq : (q.stmtAt p.size).id = p.size
  home : q.homeAt p.size = block
  list : ∃ front back, p.listAt block = front ++ back ∧
    q.listAt block = front ++ p.size :: back
  others : ∀ b ≠ block, q.listAt b = p.listAt b

namespace Added

variable {block : BlockId} {q : Program}

/-- The new instruction is listed in one place. -/
theorem mem_listAt (h : Added p block q) :
    x ∈ q.listAt b ↔ x ∈ p.listAt b ∨ x = p.size ∧ b = block := by
  by_cases hb : b = block
  · subst hb
    obtain ⟨front, back, hp, hq⟩ := h.list
    rw [hp, hq]
    simp only [List.mem_append, List.mem_cons, and_true]
    tauto
  · rw [h.others b hb]
    simp [hb]

/-- **An instruction more** keeps the representation. -/
theorem coherent (h : Added p block q) (hp : p.Coherent) : q.Coherent where
  root_lt := by rw [h.blocks_size]; exact hp.root_lt
  id_eq x hx := by
    rw [h.size] at hx
    -- an old number, or the new one
    rcases Nat.lt_succ_iff_lt_or_eq.1 hx with hx | rfl
    · rw [h.old x hx]; exact hp.id_eq x hx
    · exact h.id_eq
  listed x hx := by
    rw [h.mem_listAt]
    rw [h.size] at hx
    rcases Nat.lt_succ_iff_lt_or_eq.1 hx with hx | rfl
    · rw [homeAt, h.old x hx]; exact .inl (hp.listed x hx)
    · exact .inr ⟨rfl, h.home⟩
  owned b x hx := by
    rw [h.size]
    rcases h.mem_listAt.1 hx with hx | ⟨rfl, rfl⟩
    · obtain ⟨hlt, hhome⟩ := hp.owned b x hx
      rw [homeAt, h.old x hlt]
      exact ⟨Nat.lt_succ_of_lt hlt, hhome⟩
    · exact ⟨Nat.lt_succ_self _, h.home⟩
  nodup b := by
    by_cases hb : b = block
    · subst hb
      obtain ⟨front, back, hl, hq⟩ := h.list
      have hnew : p.size ∉ p.listAt b := fun hm => Nat.lt_irrefl _ (hp.owned b _ hm).1
      have hnd := hp.nodup b
      -- the list is a permutation of the old one with the new number in front
      rw [hl] at hnd hnew
      rw [hq]
      exact List.perm_middle.nodup_iff.2 (List.nodup_cons.2 ⟨hnew, hnd⟩)
    · rw [h.others b hb]
      exact hp.nodup b

end Added

/-! ### Inserting a conversion -/

/-- An instruction and its new neighbour, in order. -/
def Side.around (anchor new : StmtId) : Side → List StmtId
  | before => [new, anchor]
  | after => [anchor, new]

private theorem insertIdx_append_length (front back : List StmtId) (new : StmtId) :
    (front ++ back).insertIdx front.length new = front ++ new :: back := by
  induction front with
  | nil => rfl
  | cons head front ih =>
    rw [List.cons_append, List.length_cons, List.insertIdx_succ_cons, ih]
    rfl

/-- A new neighbour stands right beside its anchor and moves nothing else. -/
theorem Side.insertIdx_place (side : Side) {l : List StmtId} {anchor : StmtId} (new : StmtId)
    (h : anchor ∈ l) :
    ∃ front back, l = front ++ anchor :: back ∧
      l.insertIdx (side.place (l.idxOf anchor)) new =
        front ++ (side.around anchor new ++ back) := by
  obtain ⟨front, back, rfl, hfront⟩ := List.eq_append_cons_of_mem h
  refine ⟨front, back, rfl, ?_⟩
  -- `front` ends at the first place of the anchor
  have hidx : (front ++ anchor :: back).idxOf anchor = front.length := by
    rw [List.idxOf_append, if_neg hfront, List.idxOf_cons_self, Nat.zero_add]
  rw [hidx]
  cases side with
  | before => exact insertIdx_append_length front (anchor :: back) new
  | after =>
    -- the anchor belongs to what stays in front
    have h := insertIdx_append_length (front ++ [anchor]) back new
    rw [List.length_append, List.append_assoc, List.append_assoc] at h
    exact h

theorem modifyBlock_eq {f : Block → Block} (h : b < p.blocks.size) :
    p.modifyBlock b f = .ok { p with blocks := p.blocks.modify b f } := by
  have hb : p.blocks[b]? = some p.blocks[b] := Array.getElem?_eq_getElem h
  rw [modifyBlock_eq_ok_iff]
  refine ⟨p.blocks[b], hb, ?_⟩
  rw [modify_eq_setIfInBounds h]

private theorem idxOf?_eq_some_idxOf {l : List StmtId} (h : x ∈ l) :
    l.idxOf? x = some (l.idxOf x) := by
  rw [List.idxOf?, List.findIdx?_eq_some_iff_findIdx_eq]
  exact ⟨List.idxOf_lt_length_of_mem h, rfl⟩

/-- The place of an instruction that is listed by the block that owns it. -/
theorem position_eq (hx : x < p.size) (hmem : x ∈ p.listAt (p.homeAt x)) :
    p.position x = .ok (p.homeAt x, (p.listAt (p.homeAt x)).idxOf x) := by
  have hlt : p.homeAt x < p.blocks.size := lt_size_of_mem_listAt hmem
  simp only [position, stmt_eq hx, Fault.bind_eq_ok_iff]
  refine ⟨_, rfl, p.blockAt (p.homeAt x), block_eq hlt, ?_⟩
  -- it is listed, so the search for its place succeeds
  simp only [show (p.blockAt (p.homeAt x)).stmts = p.listAt (p.homeAt x) from rfl,
    show (p.stmtAt x).block = p.homeAt x from rfl, idxOf?_eq_some_idxOf hmem]
  rfl

/-- Only what is listed by the block that owns it has a place. -/
theorem listed_of_position {i : Nat} (h : p.position x = .ok (b, i)) :
    x < p.size ∧ x ∈ p.listAt (p.homeAt x) := by
  obtain ⟨s, hs, h⟩ := Fault.bind_eq_ok_iff.1 h
  obtain ⟨k, hk, h⟩ := Fault.bind_eq_ok_iff.1 h
  obtain ⟨hx, rfl⟩ := lt_size_of_stmt hs
  obtain ⟨-, rfl⟩ := lt_size_of_block hk
  refine ⟨hx, ?_⟩
  split at h
  · next i hi =>
    exact List.isSome_idxOf?.1 (by rw [listAt, homeAt, hi]; rfl)
  · cases h

/-- Puts a conversion of `input` to `target` next to `anchor`, typed. -/
def splice (p : Program) (side : Side) (anchor input : StmtId) (target : ElementType) :
    Program where
  stmts := p.stmts.push
    ⟨p.size, p.spanAt anchor, ⟨(p.typeAt input).width, target⟩, .unary (.cast target true) input,
      p.homeAt anchor⟩
  blocks := p.blocks.modify (p.homeAt anchor) fun k =>
    { k with
      stmts := k.stmts.insertIdx (side.place ((p.listAt (p.homeAt anchor)).idxOf anchor)) p.size }

section Splice

variable {side : Side} {anchor input : StmtId} {target : ElementType}

@[simp] theorem size_splice : (p.splice side anchor input target).size = p.size + 1 := by
  simp [size, splice]

@[simp] theorem blocks_size_splice :
    (p.splice side anchor input target).blocks.size = p.blocks.size := by
  simp [splice]

/-- What was there is as it was. -/
theorem stmtAt_splice_of_lt (h : x < p.size) :
    (p.splice side anchor input target).stmtAt x = p.stmtAt x := by
  unfold splice stmtAt
  rw [Array.getElem?_push_lt h, Array.getElem?_eq_getElem h]

theorem stmtAt_splice_size :
    (p.splice side anchor input target).stmtAt p.size =
      ⟨p.size, p.spanAt anchor, ⟨(p.typeAt input).width, target⟩,
        .unary (.cast target true) input, p.homeAt anchor⟩ := by
  unfold splice stmtAt
  rw [show p.size = p.stmts.size from rfl, Array.getElem?_push_size, Option.getD_some]

theorem typeAt_splice_of_lt (h : x < p.size) :
    (p.splice side anchor input target).typeAt x = p.typeAt x := by
  rw [typeAt, stmtAt_splice_of_lt h, typeAt]

theorem instrAt_splice_of_lt (h : x < p.size) :
    (p.splice side anchor input target).instrAt x = p.instrAt x := by
  rw [instrAt, stmtAt_splice_of_lt h, instrAt]

theorem homeAt_splice_of_lt (h : x < p.size) :
    (p.splice side anchor input target).homeAt x = p.homeAt x := by
  rw [homeAt, stmtAt_splice_of_lt h, homeAt]

@[simp] theorem typeAt_splice_size :
    (p.splice side anchor input target).typeAt p.size = ⟨(p.typeAt input).width, target⟩ := by
  rw [typeAt, stmtAt_splice_size]

@[simp] theorem instrAt_splice_size :
    (p.splice side anchor input target).instrAt p.size = .unary (.cast target true) input := by
  rw [instrAt, stmtAt_splice_size]

@[simp] theorem homeAt_splice_size :
    (p.splice side anchor input target).homeAt p.size = p.homeAt anchor := by
  rw [homeAt, stmtAt_splice_size]

theorem blockAt_splice :
    (p.splice side anchor input target).blockAt b =
      if b = p.homeAt anchor ∧ b < p.blocks.size then
        { p.blockAt b with
          stmts := (p.listAt b).insertIdx (side.place ((p.listAt b).idxOf anchor)) p.size }
      else p.blockAt b := by
  unfold splice blockAt
  rw [Array.getElem?_modify]
  -- only the list that the anchor is in changes
  by_cases hb : p.homeAt anchor = b
  · subst hb
    rcases Nat.lt_or_ge (p.homeAt anchor) p.blocks.size with hlt | hge
    · simp [hlt, listAt, blockAt]
    · simp [Nat.not_lt.2 hge]
  · rw [if_neg hb, if_neg (fun h => hb h.1.symm)]

@[simp] theorem parentAt_splice :
    (p.splice side anchor input target).parentAt b = p.parentAt b := by
  rw [parentAt, blockAt_splice, parentAt]
  split <;> rfl

theorem listAt_splice_of_ne (h : b ≠ p.homeAt anchor) :
    (p.splice side anchor input target).listAt b = p.listAt b := by
  rw [listAt, blockAt_splice, if_neg (fun hb => h hb.1), listAt]

/-- The new instruction is listed right beside its anchor. -/
theorem Coherent.listAt_splice (h : p.Coherent) (side : Side) (input : StmtId)
    (target : ElementType) (ha : anchor < p.size) :
    ∃ front back, p.listAt (p.homeAt anchor) = front ++ anchor :: back ∧
      (p.splice side anchor input target).listAt (p.homeAt anchor) =
        front ++ (side.around anchor p.size ++ back) := by
  have hmem := h.listed anchor ha
  -- what is inserted in the list of the block is inserted beside the anchor
  obtain ⟨front, back, hl, hi⟩ := side.insertIdx_place p.size hmem
  refine ⟨front, back, hl, ?_⟩
  rw [listAt, blockAt_splice, if_pos ⟨rfl, lt_size_of_mem_listAt hmem⟩]
  exact hi

/-- A splice adds one instruction to the block of its anchor. -/
theorem Coherent.added_splice (h : p.Coherent) (side : Side) (input : StmtId)
    (target : ElementType) (ha : anchor < p.size) :
    Added p (p.homeAt anchor) (p.splice side anchor input target) where
  size := size_splice
  blocks_size := blocks_size_splice
  old x hx := stmtAt_splice_of_lt hx
  id_eq := by rw [stmtAt_splice_size]
  home := homeAt_splice_size
  list := by
    obtain ⟨front, back, hl, hs⟩ := h.listAt_splice side input target ha
    -- the list is cut right before the anchor, or right behind it
    cases side with
    | before => exact ⟨front, anchor :: back, hl, hs⟩
    | after =>
      refine ⟨front ++ [anchor], back, ?_, ?_⟩
      · rw [hl, List.append_assoc]
        rfl
      · rw [hs, List.append_assoc]
        rfl
  others b hb := listAt_splice_of_ne hb

theorem Coherent.splice (h : p.Coherent) (ha : anchor < p.size) :
    (p.splice side anchor input target).Coherent :=
  (h.added_splice side input target ha).coherent h

/-- An insertion and the typing of what was inserted is a splice. -/
theorem Coherent.insert_eq (h : p.Coherent) (side : Side) (input : StmtId)
    (target : ElementType) (ha : anchor < p.size) :
    (do
      let (grown, cast) ←
        p.insert side anchor (.unary (.cast target true) input) (p.spanAt anchor)
      let program ← grown.setType cast ⟨(p.typeAt input).width, target⟩
      return (program, cast)) = .ok (p.splice side anchor input target, p.size) := by
  have hpos := position_eq ha (h.listed anchor ha)
  -- a block that lists something exists
  have hlt : p.homeAt anchor < p.blocks.size := lt_size_of_mem_listAt (h.listed anchor ha)
  have hins : p.insert side anchor (.unary (.cast target true) input) (p.spanAt anchor) =
      .ok (⟨p.stmts.push ⟨p.size, p.spanAt anchor, .unknown, .unary (.cast target true) input,
        p.homeAt anchor⟩, (p.splice side anchor input target).blocks⟩, p.size) := by
    simp only [insert, hpos, Fault.bind_eq_ok_iff]
    exact ⟨_, rfl, _, rfl, _, modifyBlock_eq hlt, rfl⟩
  simp only [hins, Fault.bind_eq_ok_iff]
  refine ⟨_, rfl, p.splice side anchor input target, ?_, rfl⟩
  rw [setType_eq (by simp [size]), Program.retype, modify_eq_setIfInBounds (by simp [size])]
  -- to type what was pushed last is to push it typed
  have hset : ∀ old new : Stmt, (p.stmts.push old).setIfInBounds p.stmts.size new =
      p.stmts.push new := by
    intro old new
    rw [Array.setIfInBounds, dif_pos (by simp), Array.set_push, dif_neg (Nat.lt_irrefl _)]
  simp [Program.splice, size, hset]

end Splice

end TensorKernel.Program
