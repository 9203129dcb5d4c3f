import TensorKernel.Proofs.Build
import TensorKernel.Proofs.Revisits

/-!
# How many lanes a pointer has

The rule of an external pointer gives it one lane for each base pointer. The rule of a global
pointer asks of the indices that they have one lane for each addressed node, and sets the element
type of the pointer; its width it leaves as it is. If no types are preset (`Step.Untyped`) that is
the one lane that every instruction starts with, however many nodes are addressed. A load has the
lanes of its pointer (`typecheck_lanes`).

All this is said of pointers and loads that nothing is stored to. A store to one of them that has no
type yet, as to any untyped instruction, lets it take over the type of the value.
-/

namespace TensorKernel

open Fault (bind_eq_ok_iff)

/-! ### Programs in which no types are preset -/

mutual

/-- No type is preset. -/
def Step.Untyped : Step → Prop
  | .typed _ _ => False
  | .setSpan _ | .emit _ => True
  | .ifThen _ body | .rangeFor _ _ body | .structFor _ body | .whileLoop body
  | .offloaded _ body => Step.AllUntyped body
  | .ifElse _ onTrue onFalse => Step.AllUntyped onTrue ∧ Step.AllUntyped onFalse

def Step.AllUntyped : List Step → Prop
  | [] => True
  | step :: rest => step.Untyped ∧ Step.AllUntyped rest

end

namespace Program

/-- Every instruction has the type that it starts with. -/
def Unset (p : Program) : Prop := ∀ x < p.size, p.typeAt x = (p.instrAt x).initialType

variable {p q : Program} {id : StmtId}

theorem unset_empty : empty.Unset := fun x hx => absurd hx (Nat.not_lt_zero x)

theorem Unset.push {block : BlockId} {instr : Instr} {span : Span} (hp : p.Unset)
    (h : p.push block instr span = .ok (q, id)) : q.Unset := by
  obtain ⟨rfl, hstmts⟩ := stmts_of_push h
  have hpushed := pushed_of_push h
  intro x hx
  rw [hpushed.size] at hx
  rcases Nat.lt_succ_iff_lt_or_eq.1 hx with hlt | rfl
  · rw [typeAt, instrAt, hpushed.old x hlt]
    exact hp x hlt
  · rw [hpushed.instr_eq, typeAt, stmtAt, hstmts, Program.size, Array.getElem?_push_size,
      Option.getD_some]

end Program

namespace Draft

variable {d d' : Draft} {id : StmtId}

/-- A new block changes no instruction. -/
theorem unset_newBlock (hd : d.program.Unset) : d.newBlock.1.program.Unset := hd

theorem unset_push {block : BlockId} {instr : Instr} (hd : d.program.Unset)
    (h : d.push block instr = .ok (d', id)) : d'.program.Unset := by
  obtain ⟨⟨p, new⟩, hpush, h⟩ := bind_eq_ok_iff.1 h
  cases h
  exact hd.push hpush

end Draft

mutual

/-- **A step that presets no type** leaves the types as they start. -/
theorem Step.run_unset (step : Step) {block : BlockId} {d d' : Draft} {ids : List StmtId}
    (hs : step.Untyped) (hd : d.program.Unset) (hrun : Step.run block step d = .ok (d', ids)) :
    d'.program.Unset := by
  match step with
  -- a step that sets a type is excluded
  | .typed id type => exact hs.elim
  | .setSpan span =>
    cases hrun
    exact hd
  | .emit instr =>
    obtain ⟨⟨d₁, id⟩, hpush, hrun⟩ := bind_eq_ok_iff.1 hrun
    cases hrun
    exact Draft.unset_push hd hpush
  | .ifThen cond body | .whileLoop body | .offloaded task body =>
    obtain ⟨⟨d₁, ids₁⟩, hbody, hrun⟩ := bind_eq_ok_iff.1 hrun
    obtain ⟨⟨d₂, id⟩, hpush, hrun⟩ := bind_eq_ok_iff.1 hrun
    cases hrun
    exact Draft.unset_push (Step.runAll_unset body hs (Draft.unset_newBlock hd) hbody) hpush
  | .ifElse cond onTrue onFalse =>
    -- the first block is filled before the second one is created
    obtain ⟨⟨d₁, ids₁⟩, htrue, hrun⟩ := bind_eq_ok_iff.1 hrun
    obtain ⟨⟨d₂, ids₂⟩, hfalse, hrun⟩ := bind_eq_ok_iff.1 hrun
    obtain ⟨⟨d₃, id⟩, hpush, hrun⟩ := bind_eq_ok_iff.1 hrun
    cases hrun
    have h₁ := Step.runAll_unset onTrue hs.1 (Draft.unset_newBlock hd) htrue
    have h₂ := Step.runAll_unset onFalse hs.2 (Draft.unset_newBlock h₁) hfalse
    exact Draft.unset_push h₂ hpush
  | .rangeFor first last body | .structFor node body =>
    -- the loop is pushed before its block is filled
    obtain ⟨⟨d₁, id⟩, hpush, hrun⟩ := bind_eq_ok_iff.1 hrun
    obtain ⟨⟨d₂, ids₂⟩, hbody, hrun⟩ := bind_eq_ok_iff.1 hrun
    cases hrun
    exact Step.runAll_unset body hs (Draft.unset_push (Draft.unset_newBlock hd) hpush) hbody

theorem Step.runAll_unset (steps : List Step) {block : BlockId} {d d' : Draft} {ids : List StmtId}
    (hs : Step.AllUntyped steps) (hd : d.program.Unset)
    (hrun : Step.runAll block steps d = .ok (d', ids)) : d'.program.Unset := by
  match steps with
  | [] =>
    cases hrun
    exact hd
  | step :: rest =>
    obtain ⟨⟨d₁, ids₁⟩, hstep, hrun⟩ := bind_eq_ok_iff.1 hrun
    obtain ⟨⟨d₂, ids₂⟩, hrest, hrun⟩ := bind_eq_ok_iff.1 hrun
    cases hrun
    exact Step.runAll_unset rest hs.2 (Step.run_unset step hs.1 hd hstep) hrest

end

theorem Program.build_unset {steps : List Step} {p : Program} {ids : List StmtId}
    (hs : Step.AllUntyped steps) (h : Program.build steps = .ok (p, ids)) : p.Unset := by
  obtain ⟨⟨d, made⟩, hrun, h⟩ := bind_eq_ok_iff.1 h
  cases h
  exact Step.runAll_unset steps hs Program.unset_empty hrun

/-! ### Widths from visit to visit -/

namespace Checker

variable {ctx : CheckContext} {p : Program} {x ptr : StmtId} {nodes : List NodeId}
  {bases indices : List StmtId} {log front back : List Visit} {v : Visit} {left : CheckState}

section Widths

variable (hp : p.Coherent) (hclosed : p.Closed) (hx : x < p.size) (hstored : p.Unstored x)
include hp hclosed hx hstored

/-- **A global pointer keeps the width it has.** -/
theorem Visits.width_globalPtr (h : Visits ctx { program := p } log left)
    (hi : p.instrAt x = .globalPtr nodes indices) :
    (left.program.typeAt x).width = (p.typeAt x).width := by
  -- on the visits, from the last one
  induction log using List.reverseRecOn generalizing left with
  | nil => rw [h.program_eq]; rfl
  | append_singleton log w ih =>
    obtain ⟨hbefore, hlt, -⟩ := h.of_append
    have hleft : left.program = w.after.program := by
      rw [h.program_eq, programAfter_append_singleton]
    rw [hleft, ← ih hbefore]
    by_cases hxw : x = w.id
    · subst hxw
      obtain ⟨r, hr, -, htype⟩ := h.ruled hp hclosed hx (by rw [hi]; rfl)
      rw [htype, hr, hi]
      -- the rule sets an element type, or nothing if there is no node
      cases nodes with
      | nil => rfl
      | cons first rest => simp [ruling, Ruling.globalPtr, Ruling.typed]
    · rw [h.typeAt_other hp hclosed hx hxw (by rw [hi]; rfl) (.inr hstored)]

/-- **An external pointer that was visited** has one lane for each base pointer. -/
theorem Visits.width_externalPtr (h : Visits ctx { program := p } log left)
    (hi : p.instrAt x = .externalPtr bases indices) (hvisited : x ∈ log.map Visit.id) :
    (left.program.typeAt x).width = bases.length := by
  obtain ⟨front, v, back, rfl, rfl, hback⟩ := exists_last hvisited
  obtain ⟨r, hr, hpasses, htype⟩ := h.ruled hp hclosed hx (by rw [hi]; rfl)
  rw [hi] at hr
  rw [h.typeAt_left hp hclosed hx (by rw [hi]; rfl) hback (.inr hstored), htype, hr]
  cases bases with
  | nil =>
    -- there has to be a base pointer
    rw [hr] at hpasses
    cases hpasses
  | cons first rest => simp [ruling, Ruling.externalPtr, Ruling.set, Ruling.typed]

/-- A load has the type that its pointer had when it was visited last. -/
theorem Visits.typeAt_globalLoad (h : Visits ctx { program := p } (front ++ v :: back) left)
    (hv : v.id = x) (hi : p.instrAt x = .globalLoad ptr) (hback : x ∉ back.map Visit.id) :
    left.program.typeAt x = v.before.program.typeAt ptr := by
  subst hv
  obtain ⟨r, hr, -, htype⟩ := h.ruled hp hclosed hx (by rw [hi]; rfl)
  rw [h.typeAt_left hp hclosed hx (by rw [hi]; rfl) hback (.inr hstored), htype, hr, hi]
  simp [ruling, Ruling.set, Ruling.typed]

end Widths

/-- What comes before another instruction in program order was visited before its last visit. -/
theorem mem_front_of_precedes (hsub : [ptr, x].Sublist (visited p (front ++ v :: back)))
    (hv : v.id = x) (hback : x ∉ back.map Visit.id) : ptr ∈ front.map Visit.id := by
  have hsub := hsub.trans List.filter_sublist
  rw [List.map_append, List.map_cons, hv] at hsub
  exact Program.mem_front_of_pair_sublist hback hsub

end Checker

namespace Program

open Checker

variable {ctx : CheckContext} {p : Program} {order : List StmtId} {o : Outcome} {report : Report}

/-- **How many lanes pointers have.** If a program in which no types were preset passes a check,
then an external pointer that can be reached has one lane for each of its base pointers, a global
pointer has one lane, and a load has the lanes of its pointer if that precedes it in program order;
as far as nothing is stored to the pointer or to the load. -/
theorem typecheck_lanes {steps : List Step} {ids : List StmtId}
    (hbuild : build steps = .ok (p, ids)) (huntyped : Step.AllUntyped steps)
    (hops : ∀ u < p.size, ∀ o ∈ (p.instrAt u).operands, o < p.size)
    (horder : p.reachable = .ok order) (ho : p.typecheck ctx = .ok o)
    (hok : o.result = .ok report) :
    ∀ x ∈ order, p.Unstored x →
      (∀ bases indices, p.instrAt x = .externalPtr bases indices →
        (o.program.typeAt x).width = bases.length) ∧
      (∀ nodes indices, p.instrAt x = .globalPtr nodes indices →
        (o.program.typeAt x).width = 1) ∧
      ∀ ptr, p.instrAt x = .globalLoad ptr → p.Unstored ptr → [ptr, x].Sublist order →
        (∃ bases indices, p.instrAt ptr = .externalPtr bases indices) ∨
          (∃ nodes indices, p.instrAt ptr = .globalPtr nodes indices) →
        (o.program.typeAt x).width = (o.program.typeAt ptr).width := by
  have hp := build_coherent hbuild
  have hclosed : p.Closed := ⟨hops, build_nested hbuild⟩
  -- the same visits for all three kinds; what counts is the last visit of an instruction
  obtain ⟨log, left, hlog, rfl, hprogram⟩ := exists_visits hp hclosed horder ho hok
  intro x hx hstored
  obtain ⟨hvisited, hlt⟩ := mem_visited.1 hx
  rw [hprogram]
  refine ⟨?_, ?_, ?_⟩
  · intro bases indices hi
    exact hlog.width_externalPtr hp hclosed hlt hstored hi hvisited
  · intro nodes indices hi
    -- nothing has set the width, so it is the one that the pointer was built with
    rw [hlog.width_globalPtr hp hclosed hlt hstored hi, build_unset huntyped hbuild x hlt, hi]
    rfl
  · intro ptr hi hptr hsub hkind
    have hptr_lt : ptr < p.size := hops x hlt ptr (hi ▸ List.mem_singleton_self ptr)
    -- the load has the width that its pointer had at the last visit of the load
    obtain ⟨front, v, back, rfl, hv, hback⟩ := exists_last hvisited
    have hfront := mem_front_of_precedes hsub hv hback
    have hbefore := hlog.of_append.1
    rw [hlog.typeAt_globalLoad hp hclosed hlt hstored hv hi hback]
    -- the pointer had its width already when the load was visited
    rcases hkind with ⟨bases, indices, hkind⟩ | ⟨nodes, indices, hkind⟩
    · rw [hbefore.width_externalPtr hp hclosed hptr_lt hptr hkind hfront,
        hlog.width_externalPtr hp hclosed hptr_lt hptr hkind (by simp [hfront])]
    · rw [hbefore.width_globalPtr hp hclosed hptr_lt hptr hkind,
        hlog.width_globalPtr hp hclosed hptr_lt hptr hkind]

/-- Two leaves below one inner node. -/
def twoLeaves : Storage :=
  ⟨#[⟨.root, .unknown, none, 0, [1]⟩, ⟨.dense, .unknown, some 0, 1, [2, 3]⟩,
    ⟨.place, .f32, some 1, 0, []⟩, ⟨.place, .f32, some 1, 0, []⟩]⟩

/-- An external pointer with two base pointers, which indexes a pointer to two nodes, and loads of
both pointers. -/
def pointersProgram : Program where
  stmts := #[⟨0, .dummy, .scalar .i32, .const (.i32 0), root⟩,
    ⟨1, .dummy, .scalar .unknown, .externalPtr [0, 0] [], root⟩,
    ⟨2, .dummy, .scalar .unknown, .globalPtr [2, 3] [1], root⟩,
    ⟨3, .dummy, .scalar .unknown, .globalLoad 1, root⟩,
    ⟨4, .dummy, .scalar .unknown, .globalLoad 2, root⟩]
  blocks := #[⟨[0, 1, 2, 3, 4], none⟩]

/-- **A pointer to two nodes has one lane**, although its index has to have two. -/
theorem typecheck_lanes_two_nodes :
    ∃ o report, Storage.empty.growAll [.dense 0 1, .place 1 .f32, .place 1 .f32] =
        .ok (twoLeaves, [1, 2, 3]) ∧
      build [.emit (.const (.i32 0)), .emit (.externalPtr [0, 0] []),
        .emit (.globalPtr [2, 3] [1]), .emit (.globalLoad 1), .emit (.globalLoad 2)] =
          .ok (pointersProgram, [0, 1, 2, 3, 4]) ∧
      pointersProgram.typecheck ⟨{}, {}, twoLeaves⟩ = .ok o ∧ o.result = .ok report ∧
      report.casts = 0 ∧
      [1, 2, 3, 4].map (fun x => (o.program.typeAt x).width) = [2, 1, 2, 1] := by
  have hbuild : build [.emit (.const (.i32 0)), .emit (.externalPtr [0, 0] []),
      .emit (.globalPtr [2, 3] [1]), .emit (.globalLoad 1), .emit (.globalLoad 2)] =
        .ok (pointersProgram, [0, 1, 2, 3, 4]) := by decide +kernel
  -- the check passes without a conversion; what it leaves is the general theorem
  have hcasts : (pointersProgram.typecheck ⟨{}, {}, twoLeaves⟩).map
      (fun o => o.result.map Report.casts) = .ok (.ok 0) := by decide +kernel
  obtain ⟨o, report, ho, hok, hcount⟩ := exists_report hcasts
  have hlanes := typecheck_lanes hbuild ⟨trivial, trivial, trivial, trivial, trivial, trivial⟩
    (by decide) (by decide : pointersProgram.reachable = .ok [0, 1, 2, 3, 4]) ho hok
  have hstored : ∀ x ∈ [1, 2, 3, 4], pointersProgram.Unstored x := by decide
  have hexternal := (hlanes 1 (by decide) (hstored 1 (by decide))).1 [0, 0] [] rfl
  have hglobal := (hlanes 2 (by decide) (hstored 2 (by decide))).2.1 [2, 3] [1] rfl
  have hloads := (hlanes 3 (by decide) (hstored 3 (by decide))).2.2 1 rfl
    (hstored 1 (by decide)) (by decide) (.inl ⟨_, _, rfl⟩)
  have hloads' := (hlanes 4 (by decide) (hstored 4 (by decide))).2.2 2 rfl
    (hstored 2 (by decide)) (by decide) (.inr ⟨_, _, rfl⟩)
  refine ⟨o, report, rfl, hbuild, ho, hok, hcount, ?_⟩
  simp [hexternal, hglobal, hloads, hloads']

end Program

end TensorKernel
