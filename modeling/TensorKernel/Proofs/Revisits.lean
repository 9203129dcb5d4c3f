import TensorKernel.Proofs.Lasting

/-!
# Checks that visit instructions again

A control instruction that is appended by hand may nest a block that is nested already. What stands
in that block has several places in program order then, and a check visits it at each of them. Of
such a check there are still its visits, one after the other (`pass_visits`): the original
instructions come in program order, each as often as it stands there.

What can be said of an instruction in the end is what its last visit has left
(`exists_last`): between its visits its type changes only if it is a constant that bounds a loop, or
has no type yet and is stored to (`Visits.typeAt_kept`).
-/

namespace TensorKernel

variable {ctx : CheckContext} {p q : Program} {x : StmtId}

/-- Nothing is stored to `x`. -/
def Program.Unstored (p : Program) (x : StmtId) : Prop :=
  ∀ y < p.size, ∀ value, p.instrAt y ≠ .localStore x value

instance (p : Program) (x : StmtId) : Decidable (p.Unstored x) :=
  decidable_of_iff (∀ y < p.size, ∀ value ∈ (p.instrAt y).operands,
    p.instrAt y ≠ .localStore x value)
    ⟨fun h y hy value hi => h y hy value (by simp [hi, Instr.operands]) hi,
      fun h y hy value _ => h y hy value⟩

/-- Conversions store nothing, and a store stays one to the same slot. -/
theorem Program.Unstored.erases (h : p.Unstored x) (hq : p.Erases q) : q.Unstored x := by
  intro y hy value hi
  by_cases hlt : y < p.size
  · have hredirected := hq.redirected y hlt
    rw [hi] at hredirected
    obtain ⟨value', hi'⟩ := hredirected.exists_localStore
    exact h y hlt value' hi'
  · have hcast := hq.extends'.fresh y (Nat.le_of_not_lt hlt) hy
    rw [hi] at hcast
    cases hcast

namespace Checker

open Program (Steps)

variable {order : List StmtId} {log front back : List Visit} {v : Visit} {left : CheckState}
  {answer : Except Fatal Unit} {fatal : Fatal} {o : Outcome}

/-- The original instructions among those that were visited. -/
def visited (p : Program) (log : List Visit) : List StmtId :=
  (log.map Visit.id).filter (· < p.size)

theorem visited_snoc {u : StmtId} {mid : CheckState} : visited p (log ++ [⟨u, mid, left⟩]) =
    visited p log ++ [u].filter (· < p.size) := by
  rw [visited, List.map_append, List.filter_append]
  rfl

theorem mem_visited : x ∈ visited p log ↔ x ∈ log.map Visit.id ∧ x < p.size := by
  rw [visited, List.mem_filter, decide_eq_true_iff]

/-- An instruction that was visited has a last visit. -/
theorem exists_last (hx : x ∈ log.map Visit.id) :
    ∃ front v back, log = front ++ v :: back ∧ v.id = x ∧ x ∉ back.map Visit.id := by
  induction log with
  | nil => cases hx
  | cons w log ih =>
    by_cases hlater : x ∈ log.map Visit.id
    · obtain ⟨front, v, back, rfl, hv, hback⟩ := ih hlater
      exact ⟨w :: front, v, back, rfl, hv, hback⟩
    · have hw : x = w.id := (List.mem_cons.1 hx).resolve_right hlater
      exact ⟨[], w, log, rfl, hw.symm, hlater⟩

/-! ### The visits of a check -/

/-- **How a rule stops a check**: rules pass along the order until this one does not. -/
def Refuses (ctx : CheckContext) (p : Program) (order : List StmtId) (fatal : Fatal) : Prop :=
  ∃ log mid left u, Visits ctx { program := p } log mid ∧ u < mid.program.size ∧
    runOn (rule ctx u (mid.program.instrAt u)) mid = .ok (.error fatal, left) ∧
    (u < p.size → visited p log ++ [u] <+: order)

/-- The look at the finished program finds nothing but values without a type. -/
theorem error_of_unresolved? (h : unresolved? p = some fatal) :
    ∃ o, fatal.error = .unresolved o := by
  obtain ⟨u, -, h⟩ := List.exists_of_findSome?_eq_some h
  obtain ⟨o, -, h⟩ := List.exists_of_findSome?_eq_some h
  split at h
  · cases h
    exact ⟨o, rfl⟩
  · cases h

/-- **What a check consists of**, whatever blocks are shared: visits along the program order, all of
which pass, or one of which stops it, or after which a value has no type. -/
theorem pass_visits (hp : p.Coherent) (hclosed : p.Closed)
    (hfits : p.Fits p.nestingBound Program.root) :
    Ends True { program := p } (pass ctx) fun answer left =>
      match answer with
      | .ok () => ∃ log, Visits ctx { program := p } log left ∧
          visited p log = p.order p.nestingBound Program.root
      | .error fatal => Refuses ctx p (p.order p.nestingBound Program.root) fatal ∨
          ∃ o, fatal.error = .unresolved o := by
  -- the walk keeps a log whose visits of the program's own instructions are those done so far
  have hwalks : Walks True ctx p (p.order p.nestingBound Program.root)
      (fun done s => ∃ log, Visits ctx { program := p } log s ∧ visited p log = done)
      (fun _ => True) (fun fatal _ => Refuses ctx p (p.order p.nestingBound Program.root) fatal) :=
    { coherent := fun ⟨_, hlog, _⟩ => Steps.coherent (hlog.steps hp hclosed) hp
      extends' := fun ⟨_, hlog, _⟩ => (Steps.erases (hlog.steps hp hclosed) hp).extends'
      enter := fun _ _ _ _ _ _ => trivial
      step := fun {done s u} ⟨log, hlog, hdone⟩ hall hu => by
        have hext := (Steps.erases (hlog.steps hp hclosed) hp).extends'
        have hlt := Nat.lt_of_lt_of_le hu hext.size_le
        have hready := hlog.ready hp hclosed hlt
        refine Ends.mono (Ends.and (rule_obeys hready (.inl trivial)) fun r left hrun => hrun) ?_
        rintro r left ⟨hobeys, hrun⟩
        refine ⟨hobeys.progress.size_le hready, ?_⟩
        cases r with
        | ok =>
          -- the instruction is the next of those that are done
          refine ⟨_, hlog.snoc hlt hrun, ?_⟩
          rw [visited_snoc, hdone, List.filter_cons_of_pos (by simpa using hu)]
          rfl
        | error fatal => exact ⟨log, s, left, u, hlog, hlt, hrun, fun _ => hdone ▸ hall⟩
      cast := fun {done s c} ⟨log, hlog, hdone⟩ _ hc hlt => by
        have hready := hlog.ready hp hclosed hlt
        refine Ends.mono (Ends.and (rule_obeys hready (.inl trivial)) fun r left hrun => hrun) ?_
        rintro r left ⟨hobeys, hrun⟩
        refine ⟨hobeys.progress.size_le hready, ?_⟩
        cases r with
        | ok =>
          -- a conversion is none of the program's own instructions
          refine ⟨_, hlog.snoc hlt hrun, ?_⟩
          rw [visited_snoc, hdone, List.filter_cons_of_neg (by simpa using hc), List.filter_nil,
            List.append_nil]
        | error fatal =>
          exact ⟨log, s, left, c, hlog, hlt, hrun, fun hold => absurd hc (Nat.not_le.2 hold)⟩ }
  have hstart : ∃ log, Visits ctx { program := p } log { program := p } ∧ visited p log = [] :=
    ⟨[], .nil, rfl⟩
  have hwalk := hwalks.visitBlock_goes hfits hstart (List.nil_append _ ▸ List.prefix_rfl)
  rw [List.nil_append] at hwalk
  unfold Ends
  rw [runOn_pass]
  refine Ends.bind hwalk ?_ ?_
  · rintro ⟨⟩ s₁ ⟨-, hvisits⟩
    split
    · -- the totality check looks at the final program only
      refine (verifyTotality_ends (.inl trivial)).mono ?_
      rintro r left ⟨-, rfl, rfl⟩
      cases hfound : unresolved? left.program with
      | none => exact hvisits
      | some fatal => exact .inr (error_of_unresolved? hfound)
    · exact hvisits
  · rintro fatal s₁ ⟨-, hstop⟩
    exact .inl hstop

/-- **A check that passes visits everything in program order.** -/
theorem exists_visits {report : Report} (hp : p.Coherent) (hclosed : p.Closed)
    (horder : p.reachable = .ok order) (ho : p.typecheck ctx = .ok o)
    (hok : o.result = .ok report) :
    ∃ log left, Visits ctx { program := p } log left ∧ visited p log = order ∧
      o.program = left.program := by
  obtain ⟨hfits, rfl⟩ := Program.contents_eq_ok_iff.1 horder
  obtain ⟨left, ⟨log, hlog, hvisited⟩, rfl⟩ := of_typecheck_ok (pass_visits hp hclosed hfits) ho hok
  exact ⟨log, left, hlog, hvisited, rfl⟩

/-- **A check that is refused** is stopped by a rule, or has left a value without a type. -/
theorem exists_refusal {failure : Failure} (hp : p.Coherent) (hclosed : p.Closed)
    (horder : p.reachable = .ok order) (ho : p.typecheck ctx = .ok o)
    (hfailed : o.result = .error failure) :
    Refuses ctx p order ⟨failure.stmt, failure.error⟩ ∨ ∃ o, failure.error = .unresolved o := by
  obtain ⟨hfits, rfl⟩ := Program.contents_eq_ok_iff.1 horder
  obtain ⟨answer, left, hrun, rfl⟩ := exists_run_of_typecheck ho
  cases answer with
  | ok => cases hfailed
  | error fatal =>
    cases hfailed
    exact (pass_visits hp hclosed hfits).of_runOn hrun

/-! ### From visit to visit -/

section Kept

variable (hp : p.Coherent) (hclosed : p.Closed)
include hp hclosed

/-- A visit of a check that passes obeys its ruling, which finds no error. -/
theorem Visits.obeys (h : Visits ctx { program := p } (front ++ v :: back) left) :
    Obeys ctx.signature p.size v.id v.before
      (ruling ctx (fun x => (v.before.program.instrAt x).isConst) v.before.program.typeAt v.id
        v.instr) (.ok ()) v.after := by
  obtain ⟨hfront, hlt, hrun⟩ := h.of_append
  exact (rule_obeys (hfront.ready hp hclosed hlt) (.inl trivial)).of_runOn hrun

/-- **A visit of an instruction that no rule points elsewhere** finds it as it was given, and no
error, and gives it the type that its rule sets. -/
theorem Visits.ruled (h : Visits ctx { program := p } (front ++ v :: back) left)
    (hv : v.id < p.size) (hconverts : (p.instrAt v.id).converts = false) :
    ∃ r, r = ruling ctx (fun x => (v.before.program.instrAt x).isConst) v.before.program.typeAt
        v.id (p.instrAt v.id) ∧
      r.error = none ∧
      v.after.program.typeAt v.id = Ruling.typed v.before.program.typeAt r.sets v.id := by
  have herases := Steps.erases (h.of_append.1.steps hp hclosed) hp
  have hinstr : v.instr = p.instrAt v.id := (herases.redirected v.id hv).eq_of_converts hconverts
  have hobeys := h.obeys hp hclosed
  rw [hinstr] at hobeys
  exact ⟨_, rfl, Ruling.answer_eq_ok_iff.1 hobeys.verdict.symm,
    hobeys.progress.types v.id h.of_append.2.1⟩

/-- A visit of another instruction leaves a type that is known, and one that nothing is stored to,
unless it is that of a constant. -/
theorem Visits.typeAt_other (h : Visits ctx { program := p } (front ++ v :: back) left)
    (hx : x < p.size) (hxv : x ≠ v.id) (hconst : (p.instrAt x).isConst = false)
    (hkept : (v.before.program.typeAt x).isUnknown = false ∨ p.Unstored x) :
    v.after.program.typeAt x = v.before.program.typeAt x := by
  obtain ⟨hfront, hlt, -⟩ := h.of_append
  have hsteps := hfront.steps hp hclosed
  have herases := Steps.erases hsteps hp
  have hx' := Nat.lt_of_lt_of_le hx herases.extends'.size_le
  -- another instruction is typed by a store into it or as a bound, and `x` is neither
  rcases (h.obeys hp hclosed).progress.moves.typeAt_eq_or_assigns (Steps.coherent hsteps hp) hlt hx'
    hxv with hsame | ⟨value, hi, hunknown⟩ | ⟨first, last, body, -, -, hbound⟩
  · exact hsame
  · rcases hkept with hknown | hunstored
    · rw [hknown] at hunknown
      cases hunknown
    · exact absurd hi (hunstored.erases herases v.id hlt value)
  · rw [(herases.redirected x hx).isConst_eq, hconst] at hbound
    cases hbound

/-- **A type is kept while its instruction is not visited.** -/
theorem Visits.typeAt_kept (h : Visits ctx { program := p } (front ++ back) left) (hx : x < p.size)
    (hconst : (p.instrAt x).isConst = false) (hback : x ∉ back.map Visit.id)
    (hkept : ((programAfter p front).typeAt x).isUnknown = false ∨ p.Unstored x) :
    left.program.typeAt x = (programAfter p front).typeAt x := by
  -- on the visits in between, from the last one
  induction back using List.reverseRecOn generalizing left with
  | nil => rw [h.program_eq, List.append_nil]
  | append_singleton back w ih =>
    rw [List.map_append, List.mem_append, not_or, List.map_singleton, List.mem_singleton] at hback
    rw [← List.append_assoc] at h
    have hbefore := ih h.of_append.1 hback.1
    have hleft : left.program = w.after.program := by
      rw [h.program_eq, programAfter_append_singleton]
    rw [hleft, h.typeAt_other hp hclosed hx hback.2 hconst (by rwa [hbefore]), hbefore]

/-- What the last visit of an instruction has left is found in the end. -/
theorem Visits.typeAt_left (h : Visits ctx { program := p } (front ++ v :: back) left)
    (hv : v.id < p.size) (hconst : (p.instrAt v.id).isConst = false)
    (hback : v.id ∉ back.map Visit.id)
    (hkept : (v.after.program.typeAt v.id).isUnknown = false ∨ p.Unstored v.id) :
    left.program.typeAt v.id = v.after.program.typeAt v.id := by
  have hafter : programAfter p (front ++ [v]) = v.after.program := programAfter_append_singleton
  rw [List.append_cons] at h
  rw [← hafter] at hkept ⊢
  exact h.typeAt_kept hp hclosed hv hconst hback hkept

end Kept

end Checker

end TensorKernel
