import TensorKernel.Proofs.Inference

/-!
# A check, visit by visit

What a rule finds and leaves is said of a single application of it, so a check is cut into those: a
`Visit` is one of them, with the state that it found and the state that it left.

* `Visits` — rules that are applied one after the other and all pass;
* `Trace` — visits that are a whole check, along the program order;
* `Course` — the same for a check that may be refused, where the last rule stops;
* `Logged` — all rules that any check has applied, also one that comes to an instruction again and
  finds it changed.

A check of a tree takes its course (`exists_course`), and has a trace if it passes
(`exists_trace`). What is known of a single visit of it is collected in `Visit.Comes`.
-/

namespace TensorKernel.Checker

open Program (Steps)

variable {ctx : CheckContext} {p : Program} {u : StmtId} {order done : List StmtId}
  {s mid left : CheckState}

/-- One application of a rule: of which instruction, and what it found and left. -/
structure Visit where
  id : StmtId
  before : CheckState
  after : CheckState

/-- The instruction that was visited, as the rule found it. -/
def Visit.instr (v : Visit) : Instr := v.before.program.instrAt v.id

/-- The program after these visits. -/
def programAfter (p : Program) : List Visit → Program
  | [] => p
  | v :: log => programAfter v.after.program log

variable {log front back : List Visit} {v : Visit}

theorem programAfter_append_singleton : programAfter p (log ++ [v]) = v.after.program := by
  induction log generalizing p with
  | nil => rfl
  | cons _ log ih => exact ih

/-! ### Visits that pass -/

/-- Rules are applied one after the other, and all of them pass. -/
inductive Visits (ctx : CheckContext) (s : CheckState) : List Visit → CheckState → Prop
  | nil : Visits ctx s [] s
  | snoc {log : List Visit} {mid left : CheckState} {u : StmtId} : Visits ctx s log mid →
      u < mid.program.size →
      runOn (rule ctx u (mid.program.instrAt u)) mid = .ok (.ok (), left) →
      Visits ctx s (log ++ [⟨u, mid, left⟩]) left

namespace Visits

theorem program_eq (h : Visits ctx s log left) : left.program = programAfter s.program log := by
  cases h with
  | nil => rfl
  | snoc => rw [programAfter_append_singleton]

/-- What a visit found is what the visits before it have left. -/
theorem of_append (h : Visits ctx s (front ++ v :: back) left) :
    Visits ctx s front v.before ∧ v.id < v.before.program.size ∧
      runOn (rule ctx v.id v.instr) v.before = .ok (.ok (), v.after) := by
  generalize hlog : front ++ v :: back = log at h
  induction h generalizing back with
  | nil => cases front <;> cases hlog
  | snoc hvisits hu hrun ih =>
    -- `v` is the last visit, or one of those before it
    rcases split_of_concat hlog.symm with ⟨back', heq⟩ | ⟨rfl, rfl⟩
    · exact ih heq.symm
    · exact ⟨hvisits, hu, hrun⟩

variable (hp : p.Coherent) (hclosed : p.Closed)
include hp hclosed

theorem steps (h : Visits ctx { program := p } log left) : Steps p.size p left.program := by
  induction h with
  | nil => exact .refl
  | snoc _ hu hrun ih =>
    have hready := ready_of_steps ih hp hclosed.grounded hu
    have hobeys := (rule_obeys hready (.inl trivial)).of_runOn hrun
    exact ih.trans (Program.Moves.steps hobeys.progress.moves)

theorem ready (h : Visits ctx { program := p } log mid) (hu : u < mid.program.size) :
    Ready p.size u mid.program :=
  ready_of_steps (h.steps hp hclosed) hp hclosed.grounded hu

/-- What every visit finds is the program with conversions. -/
theorem extends_before (h : Visits ctx { program := p } log left) :
    ∀ v ∈ log, p.Extends v.before.program ∧ v.id < v.before.program.size := by
  intro v hv
  obtain ⟨front, back, rfl⟩ := List.append_of_mem hv
  obtain ⟨hfront, hlt, -⟩ := h.of_append
  exact ⟨(Steps.erases (hfront.steps hp hclosed) hp).extends', hlt⟩

end Visits

/-! ### Whole checks -/

/-- **A whole check of `p`**, visit by visit, in which the instructions of `p` come in the given
order and are found as they are in `p`. -/
structure Trace (ctx : CheckContext) (p : Program) (order : List StmtId) (log : List Visit)
    (left : CheckState) : Prop where
  visits : Visits ctx { program := p } log left
  walked : (log.map Visit.id).filter (· < p.size) = order
  intact : ∀ v ∈ log, v.id < p.size → v.instr = p.instrAt v.id

/-- One visit more, of an instruction that is found as it is in `p`. -/
theorem Trace.snoc (h : Trace ctx p done log mid) (hu : u < mid.program.size)
    (hi : u < p.size → mid.program.instrAt u = p.instrAt u)
    (hrun : runOn (rule ctx u (mid.program.instrAt u)) mid = .ok (.ok (), left)) :
    Trace ctx p (done ++ [u].filter (· < p.size)) (log ++ [⟨u, mid, left⟩]) left where
  visits := h.visits.snoc hu hrun
  walked := by
    rw [List.map_append, List.filter_append, h.walked]
    rfl
  intact v hv hlt := by
    rcases List.mem_append.1 hv with hv | hv
    · exact h.intact v hv hlt
    · obtain rfl := List.mem_singleton.1 hv
      exact hi hlt

/-- Every instruction of the order is visited. -/
theorem Trace.exists_visit {x : StmtId} (h : Trace ctx p order log left) (hx : x ∈ order) :
    ∃ front v back, log = front ++ v :: back ∧ v.id = x := by
  rw [← h.walked] at hx
  obtain ⟨v, hv, rfl⟩ := List.mem_map.1 (List.mem_filter.1 hx).1
  obtain ⟨front, back, rfl⟩ := List.append_of_mem hv
  exact ⟨front, v, back, rfl, rfl⟩

/-- **What a check of `p` does until it ends**, visit by visit: all rules pass, or they do until one
of them stops. -/
inductive Course (ctx : CheckContext) (p : Program) (order : List StmtId) :
    List Visit → CheckState → Prop
  | passed {log : List Visit} {left : CheckState} : Trace ctx p order log left →
      Course ctx p order log left
  | stopped {done : List StmtId} {log : List Visit} {mid left : CheckState} {u : StmtId}
      {fatal : Fatal} : Trace ctx p done log mid → done ++ [u] <+: order → u < p.size →
      u < mid.program.size → mid.program.instrAt u = p.instrAt u →
      runOn (rule ctx u (mid.program.instrAt u)) mid = .ok (.error fatal, left) →
      Course ctx p order (log ++ [⟨u, mid, left⟩]) left

/-- **All rules that a check of `p` has applied** until it ended, one after the other, of which at
most the last has stopped. The instructions of `p` come in the given order, as often as they are
there; the others are conversions that were met on the way. -/
inductive Logged (ctx : CheckContext) (p : Program) (order : List StmtId) :
    List Visit → CheckState → Prop
  | passed {log : List Visit} {left : CheckState} : Visits ctx { program := p } log left →
      (log.map Visit.id).filter (· < p.size) = order → Logged ctx p order log left
  | stopped {log : List Visit} {mid left : CheckState} {u : StmtId} {fatal : Fatal} :
      Visits ctx { program := p } log mid → u < mid.program.size →
      runOn (rule ctx u (mid.program.instrAt u)) mid = .ok (.error fatal, left) →
      (log.map Visit.id ++ [u]).filter (· < p.size) <+: order →
      Logged ctx p order (log ++ [⟨u, mid, left⟩]) left

/-- Whatever rules were applied, what came of it is the program with conversions. -/
theorem Logged.steps (h : Logged ctx p order log left) (hp : p.Coherent) (hclosed : p.Closed) :
    Steps p.size p left.program := by
  cases h with
  | passed hvisits => exact hvisits.steps hp hclosed
  | stopped hvisits hu hrun =>
    -- a rule that stops has made its moves as well
    have hobeys := (rule_obeys (hvisits.ready hp hclosed hu) (.inl trivial)).of_runOn hrun
    exact (hvisits.steps hp hclosed).trans (Program.Moves.steps hobeys.progress.moves)

/-- **A check of a tree takes its course along the program order**; if it passes, all rules do. -/
theorem exists_course {o : Outcome} (hp : p.Coherent) (hclosed : p.Closed) (htree : p.Tree)
    (ho : p.typecheck ctx = .ok o) :
    ∃ answer log left, o = outcome answer left ∧
      Course ctx p (p.order p.nestingBound Program.root) log left ∧
      (answer = .ok () → Trace ctx p (p.order p.nestingBound Program.root) log left) := by
  have hfits := Program.fits_of_acyclic hp hclosed (htree.acyclic hp)
  have hnodup : (p.order p.nestingBound Program.root).Nodup := htree.order_nodup hp .refl
  have hwalks : Walks True ctx p (p.order p.nestingBound Program.root)
      (fun done s => Follows ctx p done s ∧ ∃ log, Trace ctx p done log s) (fun _ => True)
      (fun _ left => ∃ log, Course ctx p (p.order p.nestingBound Program.root) log left) :=
    { coherent := fun h => h.1.coherent
      extends' := fun h => h.1.erases.extends'
      enter := fun _ _ _ _ _ _ => trivial
      step := fun {done s u} h hall hu => by
        have hdone : u ∉ done := fun hmem =>
          List.disjoint_of_nodup_append (hnodup.sublist hall.sublist) hmem List.mem_cons_self
        have hlt := h.1.lt_size hu
        have hi := h.1.untouched u hu hdone
        have hgoes := (rule_follows h.1 hclosed hu hall hnodup (.inl trivial)).and
          fun r left hrun => hrun
        obtain ⟨log, hlog⟩ := h.2
        refine hgoes.mono ?_
        rintro r left ⟨⟨hle, hpost⟩, hrun⟩
        refine ⟨hle, ?_⟩
        cases r with
        | ok =>
          have htrace := hlog.snoc hlt (fun _ => hi) hrun
          rw [List.filter_cons_of_pos (by simpa using hu)] at htrace
          exact ⟨hpost, _, htrace⟩
        | error fatal => exact ⟨_, .stopped hlog hall hu hlt hi hrun⟩
      cast := fun {done s c} h _ hc hlt => by
        have hready := h.1.ready hlt
        refine Ends.mono (Ends.and (rule_obeys hready (.inl trivial)) fun r left hrun => hrun) ?_
        rintro r left ⟨hobeys, hrun⟩
        obtain ⟨rfl, hleft⟩ := h.1.cast hc hlt hobeys
        obtain ⟨log, hlog⟩ := h.2
        have htrace := hlog.snoc hlt (fun hold => absurd hc (Nat.not_le.2 hold)) hrun
        rw [List.filter_cons_of_neg (by simpa using hc), List.filter_nil, List.append_nil] at htrace
        exact ⟨hobeys.progress.size_le hready, hleft, _, htrace⟩ }
  have hgoes := hwalks.pass_goes (fun h => h.1.closed) hfits
    ⟨.start hp hclosed, [], .nil, rfl, fun _ hv => nomatch hv⟩
  obtain ⟨answer, left, hrun, rfl⟩ := exists_run_of_typecheck ho
  have hpost := hgoes.of_runOn hrun
  cases answer with
  | ok =>
    obtain ⟨-, log, hlog⟩ := hpost
    exact ⟨_, log, left, rfl, .passed hlog, fun _ => hlog⟩
  | error fatal =>
    -- the walk was stopped, or it was not and something was found after it
    rcases hpost with ⟨log, hlog⟩ | ⟨-, ⟨-, log, hlog⟩, -⟩
    · exact ⟨_, log, left, rfl, hlog, fun h => nomatch h⟩
    · exact ⟨_, log, left, rfl, .passed hlog, fun h => nomatch h⟩

/-- **A check of a tree that passes has a trace**, along the program order. -/
theorem exists_trace {o : Outcome} {report : Report} (hp : p.Coherent) (hclosed : p.Closed)
    (htree : p.Tree) (ho : p.typecheck ctx = .ok o) (hok : o.result = .ok report) :
    ∃ log left, Trace ctx p (p.order p.nestingBound Program.root) log left ∧
      o = outcome (.ok ()) left := by
  obtain ⟨answer, log, left, rfl, -, htrace⟩ := exists_course hp hclosed htree ho
  cases answer with
  | ok => exact ⟨log, left, htrace rfl, rfl⟩
  | error fatal => cases hok

/-- **A check of a tree comes to an end**, and if it passes it has a trace. -/
theorem exists_check (hp : p.InRange ctx.storage) (htree : p.Tree) :
    ∃ order o, p.reachable = .ok order ∧ order.Nodup ∧ p.typecheck ctx = .ok o ∧
      ∀ report, o.result = .ok report →
        ∃ log left, Trace ctx p order log left ∧ o.program = left.program := by
  have hacyclic := htree.acyclic hp.coherent
  have hfits := Program.fits_of_acyclic hp.coherent hp.closed hacyclic
  obtain ⟨o, ho⟩ : ∃ o, p.typecheck ctx = .ok o := by
    obtain ⟨_, _, ho, -⟩ := typecheck_steps hp.checkable hacyclic
    exact ⟨_, ho⟩
  refine ⟨_, o, Program.contents_eq hfits, htree.order_nodup hp.coherent .refl, ho, ?_⟩
  intro report hok
  obtain ⟨log, left, htrace, heq⟩ := exists_trace hp.coherent hp.closed htree ho hok
  exact ⟨log, left, htrace, congrArg Outcome.program heq⟩

/-! ### The visits of a course -/

/-- The visit `v` of a check of `p`, after the visits `front`. -/
structure Visit.Comes (ctx : CheckContext) (p : Program) (front : List Visit) (v : Visit) :
    Prop where
  front : Visits ctx { program := p } front v.before
  lt_size : v.id < v.before.program.size
  run : ∃ answer, runOn (rule ctx v.id v.instr) v.before = .ok (answer, v.after)
  intact : v.id < p.size → v.instr = p.instrAt v.id

theorem Trace.comes (h : Trace ctx p order (front ++ v :: back) left) : v.Comes ctx p front := by
  obtain ⟨hfront, hlt, hrun⟩ := h.visits.of_append
  exact ⟨hfront, hlt, ⟨_, hrun⟩, h.intact v (by simp)⟩

namespace Course

theorem program_eq (h : Course ctx p order log left) : left.program = programAfter p log := by
  cases h with
  | passed htrace => exact htrace.visits.program_eq
  | stopped => rw [programAfter_append_singleton]

/-- Original instructions are visited along the order. -/
theorem ids_prefix (h : Course ctx p order log left) :
    (log.map Visit.id).filter (· < p.size) <+: order := by
  cases h with
  | passed htrace => exact htrace.walked ▸ List.prefix_rfl
  | stopped htrace hprefix hu =>
    rw [List.map_append, List.filter_append, htrace.walked, List.map_singleton,
      List.filter_cons_of_pos (by simpa using hu)]
    exact hprefix

theorem comes (h : Course ctx p order (front ++ v :: back) left) : v.Comes ctx p front := by
  generalize hlog : front ++ v :: back = log at h
  cases h with
  | passed htrace => exact Trace.comes (hlog ▸ htrace)
  | stopped htrace _ _ hu hi hrun =>
    -- `v` is the visit that stopped, or one that passed
    rcases split_of_concat hlog.symm with ⟨back', rfl⟩ | ⟨rfl, rfl⟩
    · exact htrace.comes
    · exact ⟨htrace.visits, hu, ⟨_, hrun⟩, fun _ => hi⟩

/-- An instruction that was visited is not visited again. -/
theorem id_ne {mid : List Visit} (h : Course ctx p order (front ++ (mid ++ v :: back)) left)
    (hnodup : order.Nodup) (hx : x < p.size) (hvisited : x ∈ front.map Visit.id) : v.id ≠ x := by
  intro heq
  have hnodup := hnodup.sublist h.ids_prefix.sublist
  rw [List.map_append, List.filter_append] at hnodup
  refine List.disjoint_of_nodup_append hnodup
    (List.mem_filter.2 ⟨hvisited, decide_eq_true hx⟩) (List.mem_filter.2 ⟨?_, decide_eq_true hx⟩)
  exact List.mem_map.2 ⟨v, by simp, heq⟩

end Course

end TensorKernel.Checker
