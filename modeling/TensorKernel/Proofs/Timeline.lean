import TensorKernel.Proofs.Build

/-!
# Building, event by event

Building is told here as it happens in time: blocks are opened and closed, instructions are created
and types are preset (`Step.events`). At each moment the open blocks form a stack, and `innermost`
reads off from the events alone which of them is on top of it when an instruction is created.

`Reached` is the invariant that ties a program under construction to the events that led to it, and
`Step.run_reaches` the induction over the steps: if types are preset only of instructions that exist
by then (`Event.TypesExisting`), building never fails, and every instruction is owned by the block
that was innermost when it was created. Blocks are opened below the block that is innermost, so
blocks nest only later ones, and what is built can be reached as a whole (`build_arranges`).
-/

namespace TensorKernel

/-! ### Events -/

/-- What happens while a program is built. -/
inductive Event where
  /-- The block that was created last becomes the innermost open one. -/
  | opened
  /-- The innermost open block is done with. -/
  | closed
  /-- An instruction is created. -/
  | created
  /-- The type of an instruction is preset. -/
  | typed (id : StmtId)
  deriving DecidableEq

mutual

/-- What happens when a step is run. The loops over a range and over a storage node are created
before their block is filled, the other control instructions after it. -/
def Step.events : Step → List Event
  | .setSpan _ => []
  | .typed id _ => [.typed id]
  | .emit _ => [.created]
  | .ifThen _ body | .whileLoop body | .offloaded _ body =>
    .opened :: (Step.allEvents body ++ [.closed, .created])
  | .ifElse _ onTrue onFalse =>
    .opened :: (Step.allEvents onTrue ++ .closed :: .opened ::
      (Step.allEvents onFalse ++ [.closed, .created]))
  | .rangeFor _ _ body | .structFor _ body =>
    .created :: .opened :: (Step.allEvents body ++ [.closed])

def Step.allEvents : List Step → List Event
  | [] => []
  | step :: rest => step.events ++ Step.allEvents rest

end

/-- The block on top of the stack of open blocks at each creation, in order. Blocks are numbered as
they are opened, from `next` on. -/
def innermost (stack : List BlockId) (next : BlockId) : List Event → List BlockId
  | [] => []
  | .opened :: rest => innermost (next :: stack) (next + 1) rest
  | .closed :: rest => innermost stack.tail next rest
  | .created :: rest => stack.headD Program.root :: innermost stack next rest
  | .typed _ :: rest => innermost stack next rest

/-- Types are preset only of instructions that exist by then, `n` of which existed before. -/
def Event.TypesExisting (n : Nat) : List Event → Prop
  | [] => True
  | .created :: rest => Event.TypesExisting (n + 1) rest
  | .typed id :: rest => id < n ∧ Event.TypesExisting n rest
  | .opened :: rest | .closed :: rest => Event.TypesExisting n rest

theorem Event.typesExisting_append {n : Nat} {events rest : List Event} :
    Event.TypesExisting n (events ++ rest) ↔ Event.TypesExisting n events ∧
      Event.TypesExisting (n + events.count .created) rest := by
  induction events generalizing n with
  | nil => exact ⟨fun h => ⟨trivial, h⟩, fun h => h.2⟩
  | cons event events ih =>
    cases event with
    | created =>
      rw [List.count_cons_self, ← Nat.add_assoc, Nat.add_right_comm]
      exact ih
    | typed id => exact (and_congr_right' ih).trans and_assoc.symm
    | opened | closed => exact ih

theorem Event.TypesExisting.of_append {n : Nat} {events rest : List Event}
    (h : Event.TypesExisting n (events ++ rest)) : Event.TypesExisting n events :=
  (Event.typesExisting_append.1 h).1

/-- A block is opened and filled, and its instruction is created behind it. -/
theorem Event.enclosed_eq {done body : List Event} :
    done ++ .opened :: (body ++ [.closed, .created]) =
      done ++ [.opened] ++ body ++ [.closed, .created] := by
  simp only [List.append_assoc, List.cons_append, List.nil_append]

/-- A loop is created, and then its block is opened and filled. -/
theorem Event.looped_eq {done body : List Event} :
    done ++ .created :: .opened :: (body ++ [.closed]) =
      done ++ [.created, .opened] ++ body ++ [.closed] := by
  simp only [List.append_assoc, List.cons_append, List.nil_append]

/-! ### What the events lead to -/

namespace Program

variable {p q : Program} {block b c : BlockId} {stack : List BlockId} {done : List Event}
  {instr : Instr} {x id : StmtId} {t : VectorType}

/-- The blocks that own the instructions, by number. -/
def homes (p : Program) : List BlockId := (List.range p.size).map p.homeAt

theorem homes_retype : (p.retype x t).homes = p.homes := by
  rw [homes, size_retype]
  exact List.map_congr_left fun _ _ => homeAt_retype

theorem Pushed.homes_eq (h : Pushed p block instr q) : q.homes = p.homes ++ [block] := by
  have hold : ∀ x ∈ List.range p.size, q.homeAt x = p.homeAt x := by
    intro x hx
    rw [homeAt, h.old x (List.mem_range.1 hx), homeAt]
  rw [homes, h.size, List.range_succ, List.map_append, List.map_congr_left hold, List.map_singleton,
    h.home, homes]

theorem blocks_size_newBlock : p.newBlock.1.blocks.size = p.blocks.size + 1 := Array.size_push _

/-- **Blocks and the instructions that nest them agree.** -/
structure Parented (p : Program) : Prop where
  /-- Blocks are nested below earlier ones only. -/
  later : ∀ x < p.size, ∀ b ∈ (p.instrAt x).blocks, p.homeAt x < b
  /-- The parent of a block nests it. -/
  parent : ∀ b x, p.parentAt b = some x → x < p.size ∧ b ∈ (p.instrAt x).blocks
  /-- A block that is nested has a parent. -/
  adopted : ∀ x < p.size, ∀ b ∈ (p.instrAt x).blocks, (p.parentAt b).isSome

namespace Parented

theorem start : Parented .empty where
  later x hx := absurd hx (Nat.not_lt_zero x)
  parent b x hx := by
    -- the only block is the root, and nothing has adopted it
    rcases Nat.lt_or_ge b 1 with hb | hb
    · obtain rfl : b = root := Nat.lt_one_iff.1 hb
      cases hx
    · rw [parentAt, blockAt, show empty.blocks[b]? = none from Array.getElem?_eq_none hb] at hx
      cases hx
  adopted x hx := absurd hx (Nat.not_lt_zero x)

theorem retype (h : p.Parented) : (p.retype x t).Parented where
  later y hy := by
    rw [instrAt_retype, homeAt_retype]
    exact h.later y (size_retype ▸ hy)
  parent b y hy := by
    rw [size_retype, instrAt_retype]
    exact h.parent b y hy
  adopted y hy := by
    rw [instrAt_retype]
    exact h.adopted y (size_retype ▸ hy)

theorem newBlock (h : p.Parented) : p.newBlock.1.Parented := by
  -- a block that is not there has no parent, and neither has a new one
  have hparent : ∀ c, p.newBlock.1.parentAt c = p.parentAt c := by
    intro c
    unfold Program.newBlock parentAt blockAt
    rw [Array.getElem?_push]
    split
    · next hc =>
      rw [hc, Array.getElem?_eq_none (Nat.le_refl _)]
      rfl
    · rfl
  exact
    { later := h.later
      parent := fun b x hx => h.parent b x (hparent b ▸ hx)
      adopted := fun x hx b hb => (hparent b).symm ▸ h.adopted x hx b hb }

theorem pushed (h : p.Parented) (hpush : Pushed p block instr q)
    (hlater : ∀ b ∈ instr.blocks, block < b) : q.Parented := by
  -- a block is nested by an old instruction, as it was, or by the new one
  have hcases : ∀ x < q.size, ∀ b ∈ (q.instrAt x).blocks,
      x < p.size ∧ q.homeAt x = p.homeAt x ∧ b ∈ (p.instrAt x).blocks ∨
        q.homeAt x = block ∧ b ∈ instr.blocks := by
    intro x hx b hb
    rw [hpush.size] at hx
    rcases Nat.lt_succ_iff_lt_or_eq.1 hx with hx | rfl
    · rw [instrAt, hpush.old x hx] at hb
      exact .inl ⟨hx, by rw [homeAt, hpush.old x hx, homeAt], hb⟩
    · rw [hpush.instr_eq] at hb
      exact .inr ⟨hpush.home, hb⟩
  constructor
  · intro x hx b hb
    rcases hcases x hx b hb with ⟨hx, hhome, hb⟩ | ⟨hhome, hb⟩
    · exact hhome ▸ h.later x hx b hb
    · exact hhome ▸ hlater b hb
  · intro b x hbx
    rw [hpush.parent] at hbx
    rw [hpush.size]
    split at hbx
    · next hb =>
      cases hbx
      exact ⟨Nat.lt_succ_self _, hpush.instr_eq ▸ hb⟩
    · obtain ⟨hx, hb⟩ := h.parent b x hbx
      refine ⟨Nat.lt_succ_of_lt hx, ?_⟩
      rwa [instrAt, hpush.old x hx]
  · -- the new instruction adopts its own blocks, and the others have their parents
    intro x hx b hb
    rw [hpush.parent]
    split
    · rfl
    · next hnew =>
      rcases hcases x hx b hb with ⟨hx, -, hb⟩ | ⟨-, hb⟩
      · exact h.adopted x hx b hb
      · exact absurd hb hnew

/-- Where every block is nested once, its parent is what nests it. -/
theorem parentAt_eq (h : p.Parented) (htree : p.Tree) (hx : x < p.size)
    (hb : b ∈ (p.instrAt x).blocks) : p.parentAt b = some x := by
  obtain ⟨y, hy⟩ := Option.isSome_iff_exists.1 (h.adopted x hx b hb)
  obtain ⟨hylt, hby⟩ := h.parent b y hy
  rw [hy, htree.owner_unique hylt hx hby hb]

theorem parentAt_root (h : p.Parented) (htree : p.Tree) : p.parentAt root = none := by
  cases hroot : p.parentAt root with
  | none => rfl
  | some x =>
    obtain ⟨hx, hmem⟩ := h.parent root x hroot
    exact absurd rfl ((htree.mem_slots root).1 (Tree.mem_slots_of_blocks hx hmem)).1

end Parented

/-- **A program that the events have led to**, with the open blocks on the stack. -/
structure Reached (stack : List BlockId) (done : List Event) (p : Program) : Prop where
  size : p.size = done.count .created
  blocks_size : p.blocks.size = done.count .opened + 1
  /-- The owners so far are those that the events tell, whatever happens next. -/
  homes : ∀ rest, innermost [root] 1 (done ++ rest) =
    p.homes ++ innermost stack p.blocks.size rest
  open_lt : ∀ b ∈ stack, b < p.blocks.size
  parented : p.Parented

namespace Reached

theorem start : Reached [root] [] .empty where
  size := rfl
  blocks_size := rfl
  homes _ := rfl
  open_lt b hb := by
    obtain rfl := List.mem_singleton.1 hb
    exact Nat.zero_lt_one
  parented := .start

theorem typed (h : Reached stack done p) : Reached stack (done ++ [.typed id]) (p.retype id t) where
  size := by
    rw [size_retype, h.size, List.count_append]
    rfl
  blocks_size := by
    rw [List.count_append]
    exact h.blocks_size
  homes rest := by
    rw [List.append_assoc, h.homes, homes_retype]
    rfl
  open_lt := h.open_lt
  parented := h.parented.retype

/-- A new block is opened. -/
theorem opened (h : Reached stack done p) :
    Reached (p.blocks.size :: stack) (done ++ [.opened]) p.newBlock.1 where
  size := by
    rw [List.count_append]
    exact h.size
  blocks_size := by
    rw [blocks_size_newBlock, h.blocks_size, List.count_append]
    rfl
  -- from here on the new block is the innermost
  homes rest := by
    rw [List.append_assoc, h.homes, blocks_size_newBlock]
    rfl
  open_lt b hb := by
    rw [blocks_size_newBlock]
    rcases List.mem_cons.1 hb with rfl | hb
    · exact Nat.lt_succ_self _
    · exact Nat.lt_succ_of_lt (h.open_lt b hb)
  parented := h.parented.newBlock

theorem closed (h : Reached (b :: stack) done p) : Reached stack (done ++ [.closed]) p where
  size := by
    rw [List.count_append]
    exact h.size
  blocks_size := by
    rw [List.count_append]
    exact h.blocks_size
  homes rest := by
    rw [List.append_assoc, h.homes]
    rfl
  open_lt c hc := h.open_lt c (List.mem_cons_of_mem _ hc)
  parented := h.parented

/-- An instruction is appended to the innermost block. -/
theorem created (h : Reached (block :: stack) done p) (hpush : Pushed p block instr q)
    (hlater : ∀ b ∈ instr.blocks, block < b) :
    Reached (block :: stack) (done ++ [.created]) q where
  size := by
    rw [hpush.size, h.size, List.count_append]
    rfl
  blocks_size := by
    rw [hpush.blocks_size, List.count_append]
    exact h.blocks_size
  -- the instruction is created in the innermost block
  homes rest := by
    rw [List.append_assoc, h.homes, hpush.homes_eq, List.append_assoc, hpush.blocks_size]
    rfl
  open_lt := hpush.blocks_size ▸ h.open_lt
  parented := h.parented.pushed hpush hlater

/-- A loop is appended to the innermost block, and then its own block is opened. -/
theorem looped (h : Reached (block :: stack) done p) (hpush : Pushed p.newBlock.1 block instr q)
    (hblocks : instr.blocks = [p.blocks.size]) :
    Reached (p.blocks.size :: block :: stack) (done ++ [.created, .opened]) q where
  size := by
    rw [hpush.size, List.count_append]
    exact congrArg (· + 1) h.size
  blocks_size := by
    rw [hpush.blocks_size, blocks_size_newBlock, h.blocks_size, List.count_append]
    rfl
  -- the instruction stands outside the block that it opens
  homes rest := by
    have hhomes : p.newBlock.1.homes = p.homes := rfl
    rw [List.append_assoc, h.homes, hpush.homes_eq, hhomes, List.append_assoc, hpush.blocks_size,
      blocks_size_newBlock]
    rfl
  open_lt b hb := by
    rw [hpush.blocks_size]
    exact h.opened.open_lt b hb
  parented := by
    refine h.parented.newBlock.pushed hpush fun b hb => ?_
    rw [hblocks] at hb
    obtain rfl := List.mem_singleton.1 hb
    exact h.open_lt block List.mem_cons_self

end Reached

end Program

/-! ### The induction over the steps -/

section Reaching

open Program (Reached Pushed)

variable {block c : BlockId} {stack : List BlockId} {done : List Event} {d : Draft} {instr : Instr}

/-- An instruction can be appended to the innermost block, if it nests later blocks that exist. -/
private theorem Draft.push_reaches (instr : Instr) (hd : Reached (block :: stack) done d.program)
    (hnested : ∀ b ∈ instr.blocks, block < b ∧ b < d.program.blocks.size) :
    ∃ d' id, d.push block instr = .ok (d', id) ∧
      Reached (block :: stack) (done ++ [.created]) d'.program := by
  obtain ⟨q, hpush⟩ : ∃ q, d.program.push block instr d.span = .ok (q, d.program.size) :=
    Program.exists_push (hd.open_lt block List.mem_cons_self) fun b hb => (hnested b hb).2
  refine ⟨{ d with program := q }, _, Fault.bind_eq_ok_iff.2 ⟨_, hpush, rfl⟩, ?_⟩
  exact hd.created (Program.pushed_of_push hpush) fun b hb => (hnested b hb).1

/-- A control instruction is appended behind its block, once that is filled. -/
private theorem Draft.push_enclosed (instr : Instr) {run : Except Fault (Draft × List StmtId)}
    {body : List Event} (hlt : block < c)
    (hbody : ∃ d' ids, run = .ok (d', ids) ∧
      Reached (c :: block :: stack) (done ++ [.opened] ++ body) d'.program)
    (hblocks : instr.blocks = [c]) :
    ∃ d₁ ids d₂ id, run = .ok (d₁, ids) ∧ d₁.push block instr = .ok (d₂, id) ∧
      Reached (block :: stack) (done ++ [.opened] ++ body ++ [.closed, .created]) d₂.program := by
  obtain ⟨d₁, ids, hrun, h₁⟩ := hbody
  -- the body is closed again when the instruction is created
  obtain ⟨d₂, id, hpush, h₂⟩ := Draft.push_reaches instr h₁.closed fun b hb => by
    rw [hblocks] at hb
    obtain rfl := List.mem_singleton.1 hb
    exact ⟨hlt, h₁.open_lt b List.mem_cons_self⟩
  rw [List.append_assoc _ [Event.closed]] at h₂
  exact ⟨d₁, ids, d₂, id, hrun, hpush, h₂⟩

/-- A loop is appended before its block is filled. -/
private theorem Draft.push_looped (instr : Instr) (hd : Reached (block :: stack) done d.program)
    (hblocks : instr.blocks = [d.program.blocks.size]) :
    ∃ d' id, d.newBlock.1.push block instr = .ok (d', id) ∧
      Reached (d.program.blocks.size :: block :: stack) (done ++ [.created, .opened])
        d'.program := by
  have hopen := hd.opened.open_lt
  -- the new block is there, and the one around it still
  obtain ⟨q, hpush⟩ : ∃ q, d.program.newBlock.1.push block instr d.span =
      .ok (q, d.program.size) :=
    Program.exists_push (hopen block (List.mem_cons_of_mem _ List.mem_cons_self)) fun b hb => by
      rw [hblocks] at hb
      exact hopen b (List.mem_singleton.1 hb ▸ List.mem_cons_self)
  refine ⟨{ d with program := q }, _, Fault.bind_eq_ok_iff.2 ⟨_, hpush, rfl⟩, ?_⟩
  exact hd.looped (Program.pushed_of_push hpush) hblocks

mutual

/-- **A step does not fail**, and leads where its events lead. -/
theorem Step.run_reaches (step : Step) {block : BlockId} {stack : List BlockId}
    {done : List Event} {d : Draft} (hd : Reached (block :: stack) done d.program)
    (hs : step.Structured) (ht : Event.TypesExisting 0 (done ++ step.events)) :
    ∃ d' ids, Step.run block step d = .ok (d', ids) ∧
      Reached (block :: stack) (done ++ step.events) d'.program := by
  match step with
  | .setSpan span =>
    refine ⟨{ d with span }, [], rfl, ?_⟩
    rw [Step.events, List.append_nil]
    exact hd
  | .typed id type =>
    -- the instruction is one of those that were created
    have hid : id < d.program.size := by
      have hlt := (Event.typesExisting_append.1 ht).2.1
      rwa [Nat.zero_add, ← hd.size] at hlt
    exact ⟨_, _, Fault.bind_eq_ok_iff.2 ⟨_, Program.setType_eq hid, rfl⟩, hd.typed⟩
  | .emit instr =>
    obtain ⟨d₁, id, hpush, h₁⟩ := Draft.push_reaches instr hd fun b hb => by
      -- such an instruction nests nothing
      rw [hs] at hb
      cases hb
    exact ⟨_, _, Fault.bind_eq_ok_iff.2 ⟨_, hpush, rfl⟩, h₁⟩
  | .ifThen cond body =>
    have hlt := hd.open_lt block List.mem_cons_self
    rw [Step.events, Event.enclosed_eq] at ht ⊢
    -- the body is laid out first, and then the branch that nests it
    obtain ⟨d₁, ids, d₂, id, hbody, hpush, h₂⟩ := Draft.push_enclosed
      (.branch cond (some d.program.blocks.size) none) hlt
      (Step.runAll_reaches body (d := d.newBlock.1) hd.opened hs ht.of_append) rfl
    exact ⟨_, _, Fault.bind_eq_ok_iff.2 ⟨_, hbody, Fault.bind_eq_ok_iff.2 ⟨_, hpush, rfl⟩⟩, h₂⟩
  | .ifElse cond onTrue onFalse =>
    have hlt := hd.open_lt block List.mem_cons_self
    have hevents : done ++ Step.events (.ifElse cond onTrue onFalse) =
        done ++ [.opened] ++ Step.allEvents onTrue ++ [.closed] ++ [.opened] ++
          Step.allEvents onFalse ++ [.closed] ++ [.created] := by simp [Step.events]
    rw [hevents] at ht ⊢
    obtain ⟨d₁, ids₁, htrue, h₁⟩ := Step.runAll_reaches onTrue (d := d.newBlock.1) hd.opened hs.1
      ht.of_append.of_append.of_append.of_append.of_append
    obtain ⟨d₂, ids₂, hfalse, h₂⟩ := Step.runAll_reaches onFalse (d := d₁.newBlock.1)
      h₁.closed.opened hs.2 ht.of_append.of_append
    -- the second block is opened after the first one, which stays
    have hfirst : d.program.blocks.size < d₁.program.blocks.size := by
      have hopened : [Event.opened].count .opened = 1 := rfl
      rw [hd.blocks_size, h₁.blocks_size, List.count_append, List.count_append, hopened]
      omega
    have hsecond : d₁.program.blocks.size < d₂.program.blocks.size :=
      h₂.open_lt _ List.mem_cons_self
    obtain ⟨d₃, id, hpush, h₃⟩ := Draft.push_reaches
      (.branch cond (some d.program.blocks.size) (some d₁.program.blocks.size)) h₂.closed
      fun b hb => by
        rcases List.mem_cons.1 hb with rfl | hb
        · exact ⟨hlt, hfirst.trans hsecond⟩
        · obtain rfl := List.mem_singleton.1 hb
          exact ⟨hlt.trans hfirst, hsecond⟩
    exact ⟨_, _, Fault.bind_eq_ok_iff.2 ⟨_, htrue, Fault.bind_eq_ok_iff.2 ⟨_, hfalse,
      Fault.bind_eq_ok_iff.2 ⟨_, hpush, rfl⟩⟩⟩, h₃⟩
  | .rangeFor first last body =>
    rw [Step.events, Event.looped_eq] at ht ⊢
    -- the loop is created before its body
    obtain ⟨d₁, id, hpush, h₁⟩ :=
      Draft.push_looped (.rangeFor first last d.program.blocks.size) hd rfl
    obtain ⟨d₂, ids, hbody, h₂⟩ := Step.runAll_reaches body h₁ hs ht.of_append
    exact ⟨_, _, Fault.bind_eq_ok_iff.2 ⟨_, hpush, Fault.bind_eq_ok_iff.2 ⟨_, hbody, rfl⟩⟩,
      h₂.closed⟩
  | .structFor node body =>
    rw [Step.events, Event.looped_eq] at ht ⊢
    obtain ⟨d₁, id, hpush, h₁⟩ :=
      Draft.push_looped (.structFor node d.program.blocks.size) hd rfl
    obtain ⟨d₂, ids, hbody, h₂⟩ := Step.runAll_reaches body h₁ hs ht.of_append
    exact ⟨_, _, Fault.bind_eq_ok_iff.2 ⟨_, hpush, Fault.bind_eq_ok_iff.2 ⟨_, hbody, rfl⟩⟩,
      h₂.closed⟩
  | .whileLoop body =>
    have hlt := hd.open_lt block List.mem_cons_self
    rw [Step.events, Event.enclosed_eq] at ht ⊢
    obtain ⟨d₁, ids, d₂, id, hbody, hpush, h₂⟩ := Draft.push_enclosed
      (.whileLoop d.program.blocks.size) hlt
      (Step.runAll_reaches body (d := d.newBlock.1) hd.opened hs ht.of_append) rfl
    exact ⟨_, _, Fault.bind_eq_ok_iff.2 ⟨_, hbody, Fault.bind_eq_ok_iff.2 ⟨_, hpush, rfl⟩⟩, h₂⟩
  | .offloaded task body =>
    have hlt := hd.open_lt block List.mem_cons_self
    rw [Step.events, Event.enclosed_eq] at ht ⊢
    obtain ⟨d₁, ids, d₂, id, hbody, hpush, h₂⟩ := Draft.push_enclosed
      (.offloaded task (some d.program.blocks.size)) hlt
      (Step.runAll_reaches body (d := d.newBlock.1) hd.opened hs ht.of_append) rfl
    exact ⟨_, _, Fault.bind_eq_ok_iff.2 ⟨_, hbody, Fault.bind_eq_ok_iff.2 ⟨_, hpush, rfl⟩⟩, h₂⟩

theorem Step.runAll_reaches (steps : List Step) {block : BlockId} {stack : List BlockId}
    {done : List Event} {d : Draft} (hd : Reached (block :: stack) done d.program)
    (hs : Step.AllStructured steps) (ht : Event.TypesExisting 0 (done ++ Step.allEvents steps)) :
    ∃ d' ids, Step.runAll block steps d = .ok (d', ids) ∧
      Reached (block :: stack) (done ++ Step.allEvents steps) d'.program := by
  match steps with
  | [] =>
    refine ⟨_, _, rfl, ?_⟩
    rw [Step.allEvents, List.append_nil]
    exact hd
  | step :: rest =>
    rw [Step.allEvents, ← List.append_assoc] at ht ⊢
    obtain ⟨d₁, ids₁, hstep, h₁⟩ := Step.run_reaches step hd hs.1 ht.of_append
    obtain ⟨d₂, ids₂, hrest, h₂⟩ := Step.runAll_reaches rest h₁ hs.2 ht
    exact ⟨_, _, Fault.bind_eq_ok_iff.2 ⟨_, hstep, Fault.bind_eq_ok_iff.2 ⟨_, hrest, rfl⟩⟩, h₂⟩

end

end Reaching

/-! ### What is built -/

namespace Program

open Relation (ReflTransGen TransGen)

variable {p : Program} {steps : List Step}

/-- **What a block holds**, as the walk lists it: the instructions that stand in it or in a block
below it. -/
def Holds (p : Program) (b : BlockId) (run : List StmtId) : Prop :=
  p.contents p.nestingBound b = .ok run ∧
    ∀ y, y ∈ run ↔ y < p.size ∧ ReflTransGen p.Nests b (p.homeAt y)

theorem Coherent.holds (hp : p.Coherent) {b : BlockId} (hfits : p.Fits p.nestingBound b) :
    p.Holds b (p.order p.nestingBound b) := by
  refine ⟨contents_eq hfits, fun y => (mem_order_iff hfits).trans ⟨?_, ?_⟩⟩
  · rintro ⟨d, hway, hy⟩
    obtain ⟨hlt, rfl⟩ := hp.owned d y hy
    exact ⟨hlt, hway⟩
  · rintro ⟨hlt, hway⟩
    exact ⟨_, hway, hp.listed y hlt⟩

/-- **Building yields a tree in which everything can be reached.** If control instructions come from
control steps only, and types are preset only of instructions that exist, building does not fail.
Every block but the root is nested once, and what nests it is its parent; no block lies in itself.
In program order every instruction comes once, right before what its blocks hold, one block after
the other. And every instruction is owned by the block that was innermost when it was created. -/
theorem build_arranges (hs : Step.AllStructured steps)
    (ht : Event.TypesExisting 0 (Step.allEvents steps)) :
    ∃ p ids order, build steps = .ok (p, ids) ∧
      p.Tree ∧ (∀ x < p.size, ∀ b ∈ (p.instrAt x).blocks, p.parentAt b = some x) ∧
      p.parentAt root = none ∧ (∀ b, ¬ TransGen p.Nests b b) ∧
      p.reachable = .ok order ∧ order.Perm (List.range p.size) ∧
      (∀ x < p.size, ∃ front runs back, order = front ++ x :: (runs.flatten ++ back) ∧
        List.Forall₂ p.Holds (p.instrAt x).blocks runs) ∧
      p.homes = innermost [root] 1 (Step.allEvents steps) := by
  obtain ⟨d, ids, hrun, hreached⟩ := Step.runAll_reaches steps (d := {}) Reached.start hs ht
  have hbuild : build steps = .ok (d.program, ids) := Fault.bind_eq_ok_iff.2 ⟨_, hrun, rfl⟩
  have hp := build_coherent hbuild
  have htree := build_tree hbuild hs
  -- a block is opened after the one around it, so blocks cannot nest in a ring
  have hcycle := hp.not_nests_self hreached.parented.later
  have hfits := fits_of_nested hp (build_nested hbuild) fun b _ => hcycle b
  have hmem : ∀ x, x ∈ d.program.order d.program.nestingBound root ↔ x < d.program.size := by
    exact fun x => ⟨lt_size_of_mem_order hfits, htree.mem_reachable hp (contents_eq hfits) hcycle⟩
  refine ⟨d.program, ids, _, hbuild, htree, fun x hx b => hreached.parented.parentAt_eq htree hx,
    hreached.parented.parentAt_root htree, hcycle, contents_eq hfits, ?_, ?_, ?_⟩
  · refine (List.perm_ext_iff_of_nodup (htree.order_nodup hp .refl) List.nodup_range).2 ?_
    exact fun x => (hmem x).trans List.mem_range.symm
  · intro x hx
    -- what an instruction nests is listed right behind it
    obtain ⟨hbelow, front, back, hcut⟩ := hfits.exists_run ((hmem x).2 hx)
    refine ⟨front, (d.program.instrAt x).blocks.map (d.program.order d.program.nestingBound), back,
      by rw [hcut, List.flatMap_def], ?_⟩
    rw [List.forall₂_map_right_iff, List.forall₂_same]
    exact fun b hb => hp.holds (hbelow b hb)
  · -- after the last event nothing is created any more
    have hhomes := hreached.homes []
    rw [List.append_nil, List.nil_append] at hhomes
    exact (hhomes.trans (List.append_nil _)).symm

/-- A loop with a typed index, around a conditional in one branch of which there is another loop. -/
def nestSteps : List Step :=
  [.emit (.const (.i32 0)),
    .rangeFor 0 0 [.emit (.loopIndex 1 0), .typed 2 (.scalar .i32),
      .ifElse 2 [.emit .alloca] [.whileLoop [.emit .alloca]]]]

theorem build_arranges_nested :
    Step.AllStructured nestSteps ∧ Event.TypesExisting 0 (Step.allEvents nestSteps) ∧
      innermost [root] 1 (Step.allEvents nestSteps) = [0, 0, 1, 2, 4, 3, 1] ∧
      ∃ p ids order, build nestSteps = .ok (p, ids) ∧
        p.Tree ∧ (∀ x < p.size, ∀ b ∈ (p.instrAt x).blocks, p.parentAt b = some x) ∧
        p.parentAt root = none ∧ (∀ b, ¬ TransGen p.Nests b b) ∧
        p.reachable = .ok order ∧ order.Perm (List.range p.size) ∧
        (∀ x < p.size, ∃ front runs back, order = front ++ x :: (runs.flatten ++ back) ∧
          List.Forall₂ p.Holds (p.instrAt x).blocks runs) ∧
        p.homes = innermost [root] 1 (Step.allEvents nestSteps) := by
  have hs : Step.AllStructured nestSteps :=
    ⟨rfl, ⟨rfl, trivial, ⟨⟨rfl, trivial⟩, ⟨rfl, trivial⟩, trivial⟩, trivial⟩, trivial⟩
  have ht : Event.TypesExisting 0 (Step.allEvents nestSteps) := ⟨by decide, trivial⟩
  exact ⟨hs, ht, by decide, build_arranges hs ht⟩

end Program

end TensorKernel
