import TensorKernel.Check.Outcome
import TensorKernel.Check.Steps
import TensorKernel.Proofs.View

/-!
# How a step of a check ends

`Checker.Ends` is the judgement in which the rules are reasoned about: started in a given state, a
step comes to an end without a fault, and its answer (or the error it stopped with) and the state
it leaves satisfy a postcondition. The judgement is total. Its first argument excuses faults: with
`False` there is none, and with `True` only those runs count that come to an end.

Faults are excluded by the bounds of the numbers that a step follows, so every primitive step has
one equation here, under the bounds it needs (`runOn_typeOf_eq` and its companions), and `Ends` is
taken through a rule step by step with `Ends.bind` and `ends_bind`. Steps that only look at things,
one after the other, end with the first thing that is wrong (`forM_finds`).
-/

namespace TensorKernel.Checker

variable {α β : Type} {excuse : Prop} {s left : CheckState}

/-- From `s`, `step` ends in an answer and a state that satisfy `post`, or in a fault that is
excused. -/
def Ends (excuse : Prop) (s : CheckState) (step : Checker α)
    (post : Except Fatal α → CheckState → Prop) : Prop :=
  match runOn step s with
  | .error _ => excuse
  | .ok (answer, left) => post answer left

section Judgement

variable {step : Checker α} {next : α → Checker β} {a : α}
  {post post' : Except Fatal α → CheckState → Prop} {after : Except Fatal β → CheckState → Prop}

/-- Where faults are not excused, there is an end. -/
theorem Ends.exists_runOn (h : Ends False s step post) :
    ∃ answer left, runOn step s = .ok (answer, left) ∧ post answer left := by
  unfold Ends at h
  split at h
  · exact h.elim
  · next answer left hrun => exact ⟨answer, left, hrun, h⟩

theorem Ends.of_runOn {answer : Except Fatal α} (h : Ends excuse s step post)
    (hrun : runOn step s = .ok (answer, left)) : post answer left := by
  unfold Ends at h
  rwa [hrun] at h

theorem Ends.mono (h : Ends excuse s step post) (hpost : ∀ r left, post r left → post' r left) :
    Ends excuse s step post' := by
  unfold Ends at h ⊢
  split
  · next hrun => rwa [hrun] at h
  · next answer left hrun => rw [hrun] at h; exact hpost _ _ h

/-- What is known of all ends of a step is known of this one. -/
theorem Ends.and (h : Ends excuse s step post)
    (h' : ∀ r left, runOn step s = .ok (r, left) → post' r left) :
    Ends excuse s step fun r left => post r left ∧ post' r left := by
  unfold Ends at h ⊢
  cases hrun : runOn step s with
  | error fault => rwa [hrun] at h
  | ok made =>
    rw [hrun] at h
    exact ⟨h, h' _ _ hrun⟩

/-- A step and what follows it: what follows is run only on an answer. -/
theorem Ends.bind (h : Ends excuse s step post)
    (hok : ∀ a left, post (.ok a) left → Ends excuse left (next a) after)
    (herr : ∀ fatal left, post (.error fatal) left → after (.error fatal) left) :
    Ends excuse s (step >>= next) after := by
  unfold Ends at h
  unfold Ends
  rw [runOn_bind]
  cases hrun : runOn step s with
  | error fault => rwa [hrun] at h
  | ok made =>
    obtain ⟨answer, left⟩ := made
    rw [hrun] at h
    -- an error is passed on in the state that it left
    cases answer with
    | error fatal => exact herr fatal left h
    | ok a => exact hok a left h

theorem ends_of_runOn {answer : Except Fatal α} (hrun : runOn step s = .ok (answer, left)) :
    Ends excuse s step post ↔ post answer left := by
  unfold Ends
  rw [hrun]

/-- A step of which the answer is known leaves what follows it to be looked at. -/
theorem ends_bind (hrun : runOn step s = .ok (.ok a, left)) :
    Ends excuse s (step >>= next) after ↔ Ends excuse left (next a) after := by
  unfold Ends
  rw [runOn_bind, hrun]

@[simp] theorem ends_stopAt_bind {id : StmtId} {error : TypeError} :
    Ends excuse s (stopAt id error >>= next) after ↔ after (.error ⟨id, error⟩) s := by
  unfold Ends
  rw [runOn_bind, runOn_stopAt]

end Judgement

/-! ### Looking at one thing after the other -/

/-- How a look ends that has found this, or nothing. -/
def answerOf : Option Fatal → Except Fatal Unit
  | none => .ok ()
  | some fatal => .error fatal

/-- A look at one thing, which changes nothing and may end the check. -/
def Finds (excuse : Prop) (s : CheckState) (look : Checker Unit) (found : Option Fatal) : Prop :=
  Ends excuse s look fun r left => r = answerOf found ∧ left = s

/-- Looking at one thing after the other, the first thing that is found counts. -/
theorem forM_finds {look : α → Checker Unit} (found : α → Option Fatal) {l : List α}
    (h : ∀ x ∈ l, Finds excuse s (look x) (found x)) :
    Finds excuse s (l.forM look) (l.findSome? found) := by
  induction l with
  | nil => exact ⟨rfl, rfl⟩
  | cons x l ih =>
    have hx := h x List.mem_cons_self
    have hl := ih fun y hy => h y (List.mem_cons_of_mem _ hy)
    rw [List.findSome?_cons]
    cases hfound : found x with
    | none =>
      rw [hfound] at hx
      refine hx.bind ?_ (by rintro fatal left ⟨⟨⟩, _⟩)
      rintro ⟨⟩ left ⟨-, rfl⟩
      exact hl
    | some fatal =>
      -- the rest is not looked at
      rw [hfound] at hx
      exact hx.bind (by rintro ⟨⟩ left ⟨⟨⟩, _⟩) fun _ _ h => h

/-! ### The primitive steps, within bounds -/

variable {x : StmtId}

theorem runOn_stmt_eq (h : x < s.program.size) :
    runOn (lookUp (·.stmt x)) s = .ok (.ok (s.program.stmtAt x), s) := by
  rw [runOn_lookUp, Program.stmt_eq h]
  rfl

theorem runOn_block_eq {b : BlockId} (h : b < s.program.blocks.size) :
    runOn (lookUp (·.block b)) s = .ok (.ok (s.program.blockAt b), s) := by
  rw [runOn_lookUp, Program.block_eq h]
  rfl

theorem runOn_typeOf_eq (h : x < s.program.size) :
    runOn (typeOf x) s = .ok (.ok (s.program.typeAt x), s) := by
  rw [runOn_typeOf, Program.typeOf_eq h]
  rfl

theorem runOn_elemOf_eq (h : x < s.program.size) :
    runOn (elemOf x) s = .ok (.ok (s.program.typeAt x).elem, s) := by
  rw [runOn_elemOf, Program.typeOf_eq h]
  rfl

theorem elemOf_ends (h : excuse ∨ x < s.program.size) :
    Ends excuse s (elemOf x) fun r left => r = .ok (s.program.typeAt x).elem ∧ left = s := by
  by_cases hlt : x < s.program.size
  · rw [ends_of_runOn (runOn_elemOf_eq hlt)]
    exact ⟨rfl, rfl⟩
  · unfold Ends
    rw [runOn_elemOf, Program.typeOf, Program.stmt, Array.getElem?_eq_none (Nat.le_of_not_lt hlt)]
    exact h.resolve_right hlt

theorem runOn_setType_eq {t : VectorType} (h : x < s.program.size) :
    runOn (setType x t) s = .ok (.ok (), { s with program := s.program.retype x t }) := by
  rw [runOn_setType, Program.setType_eq h]
  rfl

theorem runOn_setElem_eq {t : ElementType} (h : x < s.program.size) :
    runOn (setElem x t) s =
      .ok (.ok (), { s with program := s.program.retype x ⟨(s.program.typeAt x).width, t⟩ }) := by
  rw [runOn_setElem, Program.setElem_eq h]
  rfl

theorem runOn_setInstr_eq {i : Instr} (h : x < s.program.size) :
    runOn (setInstr x i) s = .ok (.ok (), { s with program := s.program.rewrite x i }) := by
  rw [runOn_setInstr, Program.setInstr_eq h]
  rfl

theorem runOn_insertCast_eq {side : Program.Side} {anchor input : StmtId} {target : ElementType}
    (hp : s.program.Coherent) (ha : anchor < s.program.size) (hi : input < s.program.size) :
    runOn (insertCast side anchor input target) s =
      .ok (.ok s.program.size, { s with
        program := s.program.splice side anchor input target, casts := s.casts + 1 }) := by
  have h := hp.insert_eq side input target ha
  rw [runOn_insertCast, Program.typeOf_eq hi, Program.stmt_eq ha]
  simp only [Fault.bind_eq_ok_iff] at h ⊢
  -- the insertion and its typing, which together are the splice
  obtain ⟨⟨grown, cast⟩, hins, program, htype, h⟩ := h
  cases h
  exact ⟨_, rfl, _, rfl, _, hins, _, htype, rfl⟩

theorem runOn_warn_eq {loss : PrecisionLoss} (h : x < s.program.size) :
    runOn (warn x loss) s = .ok (.ok (), { s with
      warnings := s.warnings ++
        [⟨x, s.program.spanAt x, loss, (s.program.stmtAt x).text⟩] }) := by
  rw [runOn_warn, Program.stmt_eq h]
  rfl

end TensorKernel.Checker
