import TensorKernel.Proofs.Late
import TensorKernel.Proofs.Revision
import TensorKernel.Proofs.Visits

/-!
# Types that last

A type that a check knows, it knows for good. Beside its own instruction a rule gives a type only
to a slot that has none yet, and to a constant that bounds a loop (`Program.Assigns`), and this
holds of each of its moves (`Moves.typeAt_eq_or_assigns`) and so at every moment of a visit
(`Visit.Passes`). An instruction is visited once, so after its visit, and from the start if its own
rule does not type it, only loops that it bounds can change a type it has (`typecheck_keeps_types`).

Both are said of the visits that a check makes until it ends (`Course`), whether it passes or not.
-/

namespace TensorKernel

variable {ctx : CheckContext} {n : Nat} {p q r : Program} {u x : StmtId}

/-- Instructions whose own rule does not type them: slots, constants and control instructions. -/
def Instr.isPassive : Instr → Bool
  | alloca | const _ | branch _ _ _ | rangeFor _ _ _ | structFor _ _ | whileLoop _
  | offloaded _ _ => true
  | _ => false

/-! ### What a move changes -/

namespace Program

/-- **What the rule of `u` may type beside `u`**: the slot that it stores to, if that has no type
yet, and the constants that bound its loop. -/
def Assigns (p : Program) (u x : StmtId) : Prop :=
  (∃ value, p.instrAt u = .localStore x value ∧ (p.typeAt x).isUnknown = true) ∨
    ∃ first last body, p.instrAt u = .rangeFor first last body ∧ (x = first ∨ x = last) ∧
      (p.instrAt x).isConst = true

theorem Move.typeAt_eq_or_assigns (h : p.Move n u q) (hx : x < p.size) (hxu : x ≠ u) :
    q.typeAt x = p.typeAt x ∨ p.Assigns u x := by
  -- a type that is set is that of `x`, or `x` keeps its own
  have hretype : ∀ {y t}, x ≠ y → (p.retype y t).typeAt x = p.typeAt x := fun hxy => by
    rw [typeAt, stmtAt_retype, if_neg fun h => hxy h.1, typeAt]
  cases h with
  | own => exact .inl (hretype hxu)
  | @slot slot value hi hunknown =>
    by_cases hxs : x = slot
    · subst hxs
      exact .inr (.inl ⟨value, hi, hunknown⟩)
    · exact .inl (hretype hxs)
  | @bound first last bound body hi hb hconst =>
    by_cases hxb : x = bound
    · subst hxb
      exact .inr (.inr ⟨first, last, body, hi, hb, hconst⟩)
    · exact .inl (hretype hxb)
  | before | after => exact .inl (typeAt_splice_of_lt hx)
  | redirect => exact .inl typeAt_rewrite

/-- A move does not make room for more of this. -/
theorem Move.assigns (h : p.Move n u q) (hp : p.Coherent) (hu : u < p.size) (hx : x < p.size)
    (hxu : x ≠ u) (hq : q.Assigns u x) (htype : q.typeAt x = p.typeAt x) : p.Assigns u x := by
  have hredirected := h.redirected hp hu
  rcases hq with ⟨value, hi, hunknown⟩ | ⟨first, last, body, hi, hb, hconst⟩
  · rw [htype] at hunknown
    rw [hi] at hredirected
    obtain ⟨value', hi'⟩ := hredirected.exists_localStore
    exact .inl ⟨value', hi', hunknown⟩
  · rw [hi] at hredirected
    rw [h.instrAt_eq hx hxu] at hconst
    exact .inr ⟨first, last, body, hredirected.eq_rangeFor, hb, hconst⟩

/-- **What the moves of a rule change** is changed by one of them. -/
theorem Moves.typeAt_eq_or_assigns (h : Moves n u p q) (hp : p.Coherent) (hu : u < p.size)
    (hx : x < p.size) (hxu : x ≠ u) : q.typeAt x = p.typeAt x ∨ p.Assigns u x := by
  -- on the moves, from the first one
  induction h using Relation.ReflTransGen.head_induction_on with
  | refl => exact .inl rfl
  | @head p p' hmove _ ih =>
    have hle := (hmove.extends hp).size_le
    rcases hmove.typeAt_eq_or_assigns hx hxu with htype | hassigns
    · have hrest := ih (hmove.coherent hp) (Nat.lt_of_lt_of_le hu hle) (Nat.lt_of_lt_of_le hx hle)
      refine hrest.imp (fun hsame => hsame.trans htype) fun hassigns => ?_
      exact hmove.assigns hp hu hx hxu hassigns htype
    · exact .inr hassigns

end Program

/-! ### What a visit changes -/

namespace Checker

open Program (Steps)

variable {order : List StmtId} {front back : List Visit} {w : Visit} {left : CheckState}

/-- On its way from what it found to what it left, a visit goes from `q` to `r`. -/
structure Visit.Passes (n : Nat) (w : Visit) (q r : Program) : Prop where
  first : Program.Moves n w.id w.before.program q
  next : Program.Moves n w.id q r
  last : Program.Moves n w.id r w.after.program

/-- What is passive is not among what its rule types. -/
theorem not_mem_sets_of_isPassive {isConst : StmtId → Bool} {τ : TypeMap} {i : Instr}
    {t : VectorType} (hi : i.isPassive = true) (hconst : i.isConst = false → isConst u = false) :
    (u, t) ∉ (ruling ctx isConst τ u i).sets := by
  cases i with
  | alloca | const | branch | structFor | whileLoop | offloaded => exact List.not_mem_nil
  | rangeFor first last body =>
    -- a loop is no constant, and so none of its own bounds
    intro h
    obtain ⟨y, hy, heq⟩ := List.mem_map.1 h
    cases heq
    have hy := (List.mem_filter.1 hy).2
    rw [hconst rfl] at hy
    cases hy
  | _ => cases hi

namespace Visit

theorem Passes.typeAt_eq_or_assigns (h : w.Passes n q r) (hw : w.before.program.Coherent)
    (hu : w.id < w.before.program.size) (hx : x < q.size) (hxw : x ≠ w.id) :
    r.typeAt x = q.typeAt x ∨ q.Assigns w.id x :=
  h.next.typeAt_eq_or_assigns (h.first.coherent hw)
    (Nat.lt_of_lt_of_le hu (h.first.extension hw).size_le) hx hxw

namespace Comes

variable (h : w.Comes ctx p front) (hp : p.Coherent) (hclosed : p.Closed)
include h hp hclosed

theorem steps : Steps p.size p w.before.program := h.front.steps hp hclosed

theorem coherent : w.before.program.Coherent := Steps.coherent (h.steps hp hclosed) hp

theorem obeys : ∃ answer, Obeys ctx.signature p.size w.id w.before
    (ruling ctx (fun x => (w.before.program.instrAt x).isConst) w.before.program.typeAt w.id
      w.instr) answer w.after := by
  have hready := h.front.ready hp hclosed h.lt_size
  obtain ⟨answer, hrun⟩ := h.run
  exact ⟨answer, (rule_obeys hready (.inl trivial)).of_runOn hrun⟩

theorem passes : w.Passes p.size w.before.program w.after.program :=
  (h.obeys hp hclosed).elim fun _ hobeys => ⟨.refl, hobeys.progress.moves, .refl⟩

/-- **A visit of a passive instruction** leaves its type. -/
theorem typeAt_self (hi : w.instr.isPassive = true) :
    w.after.program.typeAt w.id = w.before.program.typeAt w.id := by
  obtain ⟨answer, hobeys⟩ := h.obeys hp hclosed
  rw [hobeys.progress.types w.id h.lt_size]
  exact (Ruling.typed_cases _ _ w.id).resolve_right (not_mem_sets_of_isPassive hi fun h => h)

/-- **A visit of another instruction** leaves a type that is known, unless it is that of a constant
that bounds a loop. -/
theorem typeAt_other (hx : x < p.size) (hxw : x ≠ w.id)
    (hknown : (w.before.program.typeAt x).isUnknown = false) :
    w.after.program.typeAt x = w.before.program.typeAt x ∨ (p.instrAt x).isConst = true ∧
      ∃ first last body, w.instr = .rangeFor first last body ∧ (x = first ∨ x = last) := by
  have herases := Steps.erases (h.steps hp hclosed) hp
  have hlt := Nat.lt_of_lt_of_le hx herases.extends'.size_le
  rcases (h.passes hp hclosed).typeAt_eq_or_assigns (h.coherent hp hclosed) h.lt_size hlt hxw with
    hsame | ⟨value, -, hunknown⟩ | ⟨first, last, body, hi, hb, hconst⟩
  · -- nothing has set it, the slot was not known, or it is a bound
    exact .inl hsame
  · rw [hknown] at hunknown
    cases hunknown
  · rw [(herases.redirected x hx).isConst_eq] at hconst
    exact .inr ⟨hconst, first, last, body, hi, hb⟩

end Comes

end Visit

/-- A visit of a check that passes obeys its ruling, which finds no error. What it found is taken
for the program that was given, so that all it points its instruction at is new. -/
theorem Trace.obeys (h : Trace ctx p order (front ++ w :: back) left) (hp : p.Coherent)
    (hclosed : p.Closed) :
    Obeys ctx.signature w.before.program.size w.id w.before
      (ruling ctx (fun x => (w.before.program.instrAt x).isConst) w.before.program.typeAt w.id
        w.instr) (.ok ()) w.after := by
  obtain ⟨hfront, hlt, hrun⟩ := h.visits.of_append
  have hready := hfront.ready hp hclosed hlt
  exact (rule_obeys ⟨hready.coherent, hready.grounded, Nat.le_refl _, hlt⟩
    (.inl trivial)).of_runOn hrun

/-- A visit points its instruction at most at conversions that it has inserted. -/
theorem Trace.redirected (h : Trace ctx p order (front ++ w :: back) left) (hp : p.Coherent)
    (hclosed : p.Closed) :
    Redirected (w.after.program.StandsFor w.before.program.size) w.instr
      (w.after.program.instrAt w.id) := by
  have hcoherent := h.comes.coherent hp hclosed
  exact ((Program.Erases.refl hcoherent).moves hcoherent
    (h.obeys hp hclosed).progress.moves).redirected w.id h.comes.lt_size

theorem Trace.revises (h : Trace ctx p order (front ++ w :: back) left) (hp : p.Coherent)
    (hclosed : p.Closed) : Revises ctx.config w.id w.before (.ok ()) w.after := by
  obtain ⟨hfront, hlt, hrun⟩ := h.visits.of_append
  exact (rule_revises (hfront.ready hp hclosed hlt) (.inl trivial)).of_runOn hrun

/-- **An instruction that was visited is left as it is.** -/
theorem Course.instrAt_lasts {mid : List Visit}
    (h : Course ctx p order (front ++ mid ++ back) left) (hp : p.Coherent) (hclosed : p.Closed)
    (hnodup : order.Nodup) (hx : x < p.size) (hvisited : x ∈ front.map Visit.id) :
    (programAfter p (front ++ mid)).instrAt x = (programAfter p front).instrAt x := by
  -- on the visits in between, from the last one
  induction mid using List.reverseRecOn generalizing back with
  | nil => rw [List.append_nil]
  | append_singleton mid w ih =>
    rw [← List.append_assoc, List.append_assoc _ [w] back] at h
    have hcomes : w.Comes ctx p (front ++ mid) := h.comes
    have hext := (Steps.erases (hcomes.steps hp hclosed) hp).extends'
    have hne : x ≠ w.id := by
      rw [List.append_assoc] at h
      exact (h.id_ne hnodup hx hvisited).symm
    rw [← List.append_assoc, programAfter_append_singleton, ← ih h,
      (hcomes.passes hp hclosed).next.instrAt_eq (hcomes.coherent hp hclosed)
        (Nat.lt_of_lt_of_le hx hext.size_le) hne]
    exact congrArg (fun q : Program => q.instrAt x) hcomes.front.program_eq

/-- **A type that is known lasts**, from one visit to the next. -/
theorem Course.typeAt_lasts {mid : List Visit}
    (h : Course ctx p order (front ++ mid ++ back) left) (hp : p.Coherent) (hclosed : p.Closed)
    (hnodup : order.Nodup) (hx : x < p.size)
    (hdone : x ∈ front.map Visit.id ∨ (p.instrAt x).isPassive = true ∨ x ∉ order)
    (hknown : ((programAfter p front).typeAt x).isUnknown = false) :
    (programAfter p (front ++ mid)).typeAt x = (programAfter p front).typeAt x ∨
      (p.instrAt x).isConst = true ∧ ∃ w ∈ mid, ∃ first last body,
        w.instr = .rangeFor first last body ∧ (x = first ∨ x = last) := by
  -- on the visits in between, from the last one
  induction mid using List.reverseRecOn generalizing back with
  | nil => exact .inl (by rw [List.append_nil])
  | append_singleton mid w ih =>
    rw [← List.append_assoc, List.append_assoc _ [w] back] at h
    have hcomes : w.Comes ctx p (front ++ mid) := h.comes
    have hbefore : w.before.program = programAfter p (front ++ mid) := hcomes.front.program_eq
    rw [← List.append_assoc, programAfter_append_singleton]
    -- up to this visit by induction, and then what the visit itself does
    rcases ih h with hsame | ⟨hconst, v, hv, hloop⟩
    · rw [← hsame, ← hbefore] at hknown ⊢
      by_cases hxw : x = w.id
      · -- it was not visited before and can be reached, so it is passive
        subst hxw
        have hpassive : (p.instrAt w.id).isPassive = true := by
          rcases hdone with hvisited | hpassive | hnot
          · rw [List.append_assoc] at h
            exact absurd rfl (h.id_ne hnodup hx hvisited)
          · exact hpassive
          · refine absurd (h.ids_prefix.subset (List.mem_filter.2 ⟨?_, decide_eq_true hx⟩)) hnot
            exact List.mem_map.2 ⟨w, by simp, rfl⟩
        rw [← hcomes.intact hx] at hpassive
        exact .inl (hcomes.typeAt_self hp hclosed hpassive)
      · -- of other instructions a rule only forces the bounds of a loop
        refine (hcomes.typeAt_other hp hclosed hx hxw hknown).imp_right fun ⟨hconst, hloop⟩ => ?_
        exact ⟨hconst, w, by simp, hloop⟩
    · exact .inr ⟨hconst, v, List.mem_append_left _ hv, hloop⟩

/-! ### What a visit leaves for good -/

section Passed

variable (h : Trace ctx p order (front ++ w :: back) left)
include h

/-- The rest of a check that passes, after one of its visits. -/
theorem Trace.rest : Course ctx p order (front ++ [w] ++ back ++ []) left ∧
    programAfter p (front ++ [w]) = w.after.program ∧
    programAfter p (front ++ [w] ++ back) = left.program := by
  have hlog : front ++ [w] ++ back = front ++ w :: back := by
    rw [List.append_assoc, List.singleton_append]
  rw [hlog, List.append_nil]
  exact ⟨.passed h, programAfter_append_singleton, h.visits.program_eq.symm⟩

variable (hp : p.Coherent) (hclosed : p.Closed) (hnodup : order.Nodup)
include hp hclosed hnodup

/-- What a visit has made of its instruction is found in the end. -/
theorem Trace.instrAt_left (hx : w.id < p.size) :
    left.program.instrAt w.id = w.after.program.instrAt w.id := by
  obtain ⟨hcourse, hafter, hleft⟩ := h.rest
  rw [← hafter, ← hleft]
  exact hcourse.instrAt_lasts hp hclosed hnodup hx (by simp)

/-- A type that is known after a visit is found in the end, if its instruction was visited, or is
not typed by its own rule. -/
theorem Trace.typeAt_left (hx : x < p.size) (hdone : x = w.id ∨ (p.instrAt x).isPassive = true)
    (hconst : (p.instrAt x).isConst = false)
    (hknown : (w.after.program.typeAt x).isUnknown = false) :
    left.program.typeAt x = w.after.program.typeAt x := by
  -- the rest of the trace is a course, in which nothing visits `x` again
  obtain ⟨hcourse, hafter, hleft⟩ := h.rest
  rw [← hafter] at hknown
  rw [← hafter, ← hleft]
  have hdone' : x ∈ (front ++ [w]).map Visit.id ∨ (p.instrAt x).isPassive = true ∨ x ∉ order := by
    rcases hdone with rfl | hpassive
    · exact .inl (by simp)
    · exact .inr (.inl hpassive)
  refine (hcourse.typeAt_lasts hp hclosed hnodup hx hdone' hknown).resolve_right fun hloop => ?_
  rw [hconst] at hloop
  cases hloop.1

end Passed

end Checker

namespace Program

open Checker

/-- **Types last.** A check of a tree comes to an end, and its course are visits along the program
order. Within a visit the type of another instruction changes only if that is a slot without a type
which is stored to, or a constant that bounds a loop. And from visit to visit an instruction of the
program that has a type keeps it, once it was visited, or all along if its own rule does not type it
or it cannot be reached; unless it is a constant that bounds a loop which is visited in between. -/
theorem typecheck_keeps_types (hp : p.InRange ctx.storage) (htree : p.Tree) :
    ∃ order o answer log left, p.reachable = .ok order ∧ p.typecheck ctx = .ok o ∧
      o = outcome answer left ∧ Course ctx p order log left ∧
      o.program = programAfter p log ∧
      (∀ w ∈ log, w.Passes p.size w.before.program w.after.program ∧
        ∀ q r, w.Passes p.size q r → ∀ x < q.size, x ≠ w.id →
          r.typeAt x = q.typeAt x ∨ q.Assigns w.id x) ∧
      ∀ front mid back, log = front ++ mid ++ back → ∀ x < p.size,
        x ∈ front.map Visit.id ∨ (p.instrAt x).isPassive = true ∨ x ∉ order →
        ((programAfter p front).typeAt x).isUnknown = false →
        (programAfter p (front ++ mid)).typeAt x = (programAfter p front).typeAt x ∨
          (p.instrAt x).isConst = true ∧ ∃ w ∈ mid, ∃ first last body,
            w.instr = .rangeFor first last body ∧ (x = first ∨ x = last) := by
  have hacyclic := htree.acyclic hp.coherent
  obtain ⟨_, _, htype, -⟩ := typecheck_steps hp.checkable hacyclic
  -- however the check ends, it takes its course along an order without repetitions
  obtain ⟨answer, log, left, heq, hcourse, -⟩ := exists_course hp.coherent hp.closed htree htype
  have hnodup : (p.order p.nestingBound root).Nodup := htree.order_nodup hp.coherent .refl
  refine ⟨_, _, answer, log, left, contents_eq (fits_of_acyclic hp.coherent hp.closed hacyclic),
    htype, heq, hcourse, ?_, ?_, ?_⟩
  · rw [heq]
    exact hcourse.program_eq
  · -- what a visit does to one program it does to every program that it may find
    intro w hw
    obtain ⟨front, back, rfl⟩ := List.append_of_mem hw
    have hcomes := hcourse.comes
    refine ⟨hcomes.passes hp.coherent hp.closed, fun q r hpasses x hx hxw => ?_⟩
    exact hpasses.typeAt_eq_or_assigns (hcomes.coherent hp.coherent hp.closed) hcomes.lt_size hx hxw
  · rintro front mid back rfl x hx hdone hknown
    exact hcourse.typeAt_lasts hp.coherent hp.closed hnodup hx hdone hknown

/-- A slot is filled with a long constant, which then bounds a loop. -/
def longBoundProgram : Program where
  stmts := #[⟨0, .dummy, .scalar .unknown, .alloca, root⟩,
    ⟨1, .dummy, .scalar .i64, .const (.i64 0), root⟩,
    ⟨2, .dummy, .scalar .unknown, .localStore 0 1, root⟩,
    ⟨3, .dummy, .scalar .unknown, .rangeFor 1 1 1, root⟩,
    ⟨4, .dummy, .scalar .unknown, .localLoad 0, 1⟩]
  blocks := #[⟨[0, 1, 2, 3], none⟩, ⟨[4], some 3⟩]

theorem typecheck_keeps_types_long_bound :
    longBoundProgram.InRange .empty ∧ longBoundProgram.Tree ∧
      ∃ order o answer log left, longBoundProgram.reachable = .ok order ∧
        longBoundProgram.typecheck ⟨{}, {}, .empty⟩ = .ok o ∧ o = outcome answer left ∧
        Course ⟨{}, {}, .empty⟩ longBoundProgram order log left ∧
        o.program = programAfter longBoundProgram log ∧
        (∀ w ∈ log, w.Passes longBoundProgram.size w.before.program w.after.program ∧
          ∀ q r, w.Passes longBoundProgram.size q r → ∀ x < q.size, x ≠ w.id →
            r.typeAt x = q.typeAt x ∨ q.Assigns w.id x) ∧
        ∀ front mid back, log = front ++ mid ++ back → ∀ x < longBoundProgram.size,
          x ∈ front.map Visit.id ∨ (longBoundProgram.instrAt x).isPassive = true ∨ x ∉ order →
          ((programAfter longBoundProgram front).typeAt x).isUnknown = false →
          (programAfter longBoundProgram (front ++ mid)).typeAt x =
              (programAfter longBoundProgram front).typeAt x ∨
            (longBoundProgram.instrAt x).isConst = true ∧ ∃ w ∈ mid, ∃ first last body,
              w.instr = .rangeFor first last body ∧ (x = first ∨ x = last) := by
  have hbuild : build [.emit .alloca, .emit (.const (.i64 0)), .emit (.localStore 0 1),
      .rangeFor 1 1 [.emit (.localLoad 0)]] = .ok (longBoundProgram, [0, 1, 2, 3, 4, 3]) := by
    decide +kernel
  have hp : longBoundProgram.InRange .empty :=
    inRange_of_build hbuild Storage.linked_empty (by decide) (by decide)
  have htree : longBoundProgram.Tree :=
    build_tree hbuild ⟨rfl, rfl, rfl, ⟨rfl, trivial⟩, trivial⟩
  exact ⟨hp, htree, typecheck_keeps_types hp htree⟩

end Program

end TensorKernel
