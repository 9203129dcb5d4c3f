import TensorKernel.Proofs.Build
import TensorKernel.Proofs.Late
import TensorKernel.Proofs.Revision

/-!
# What a check has made sure of

A rule makes sure of something at the moment it is applied (`Agreed`). The invariant `Settles`
keeps it for each instruction that was walked, in terms of the types as they were known then
(`asOf`), next to what the inference knows (`Follows`). Conversions keep their types for good: one
is only put into blocks that have been entered, where the walk does not come again, so it is never
met.

* `Settles.step` — one rule adds what it makes sure of to what the earlier rules have;
* `exists_settled` — a check that passes settles everything that it walked.
-/

namespace TensorKernel

variable {ctx : CheckContext} {p q r : Program} {all done front back : List StmtId}
  {s s' : CheckState} {u c d o x : StmtId}

/-! ### Where conversions are put -/

/-- **Conversions stay close**: those that the rule of `u` inserts go into the block of `u` or into
that of an operand. -/
theorem Program.Moves.homes {D : BlockId → Prop} (h : Program.Moves p.size u q r)
    (hq : q.Coherent) (he : p.Erases q) (hu : u < p.size) (hDu : D (p.homeAt u))
    (hDo : ∀ o ∈ (p.instrAt u).operands, D (p.homeAt o))
    (hc : ∀ c, p.size ≤ c → c < q.size → D (q.homeAt c)) :
    ∀ c, p.size ≤ c → c < r.size → D (r.homeAt c) := by
  -- on the moves, from the last one
  induction h with
  | refl => exact hc
  | @tail q' r hmoves hmove ih =>
    have hq' := Program.Moves.coherent hmoves hq
    have he' := he.moves hq hmoves
    have hhome : ∀ x < p.size, q'.homeAt x = p.homeAt x := he'.extends'.home
    intro c hc hlt
    -- only an insertion adds a conversion, next to `u` or to an operand of `u`
    cases hmove with
    | own | slot | bound =>
      rw [Program.size_retype] at hlt
      rw [Program.homeAt_retype]
      exact ih c hc hlt
    | redirect =>
      rw [Program.size_rewrite] at hlt
      rw [Program.homeAt_rewrite]
      exact ih c hc hlt
    | before =>
      rw [Program.size_splice] at hlt
      rcases Nat.lt_succ_iff_lt_or_eq.1 hlt with hlt | rfl
      · rw [Program.homeAt_splice_of_lt hlt]
        exact ih c hc hlt
      · rw [Program.homeAt_splice_size, hhome u hu]
        exact hDu
    | @after d t hd hmem =>
      rw [Program.size_splice] at hlt
      rcases Nat.lt_succ_iff_lt_or_eq.1 hlt with hlt | rfl
      · rw [Program.homeAt_splice_of_lt hlt]
        exact ih c hc hlt
      · rw [Program.homeAt_splice_size]
        rcases Nat.lt_or_ge d p.size with hdlt | hdge
        · -- an original instruction, and so an operand that `u` had from the start
          have hd' : d ∈ (p.instrAt u).operands := he'.operand_of_lt hu hmem hdlt
          rw [hhome d hdlt]
          exact hDo d hd'
        · exact ih d hdge hd

/-! ### What was known when -/

/-- The types as they were known when `u` was checked after `front`: of an original instruction,
what the inference knew; of a conversion, its type, which does not change. -/
def asOf (ctx : CheckContext) (p : Program) (front : List StmtId) (u : StmtId) (q : Program) :
    TypeMap := fun x =>
  if x < p.size then (p.infer ctx (front ++ [u])).2.types x else q.typeAt x

/-- In `q`, `c` is a conversion that was made for an operand of `u`, as wide as what it converts
was then. -/
def ConvertsFor (ctx : CheckContext) (p : Program) (front : List StmtId) (u : StmtId) (q : Program)
    (c : StmtId) : Prop :=
  ∃ o ∈ (p.instrAt u).operands, q.StandsFor p.size c o ∧ ∃ target d,
    q.instrAt c = .unary (.cast target true) d ∧
      (asOf ctx p front u q c).width = (asOf ctx p front u q d).width

/-- **The state of a check that has walked `done`**, with what the rules have made sure of. -/
structure Settles (ctx : CheckContext) (p : Program) (done : List StmtId) (s : CheckState) :
    Prop extends Follows ctx p done s where
  old : ∀ x ∈ done, x < p.size
  /-- Every conversion is in a block that was entered. -/
  homes : ∀ c, p.size ≤ c → c < s.program.size → ∃ x ∈ done, s.program.homeAt c = p.homeAt x
  agreed : ∀ front u back, done = front ++ u :: back →
    Agreed ctx.signature (asOf ctx p front u s.program) u (s.program.instrAt u)
  converts : ∀ c, p.size ≤ c → c < s.program.size →
    ∃ front u back, done = front ++ u :: back ∧ ConvertsFor ctx p front u s.program c

/-- What a rule makes sure of is about its own type and those of the operands. -/
theorem agreed_congr {signature : Signature} {τ τ' : TypeMap} {i : Instr} (hu : τ u = τ' u)
    (hτ : ∀ o ∈ i.operands, τ o = τ' o) (h : Agreed signature τ u i) :
    Agreed signature τ' u i := by
  cases i with
  | binary op lhs rhs =>
    have hl := hτ lhs List.mem_cons_self
    have hr := hτ rhs (List.mem_cons_of_mem _ List.mem_cons_self)
    simp only [Agreed] at h ⊢
    rwa [← hu, ← hl, ← hr]
  | ternary op cond onTrue onFalse =>
    have hc := hτ cond List.mem_cons_self
    have ht := hτ onTrue (List.mem_cons_of_mem _ List.mem_cons_self)
    have hf := hτ onFalse (List.mem_cons_of_mem _ (List.mem_cons_of_mem _ List.mem_cons_self))
    simp only [Agreed] at h ⊢
    rwa [← hc, ← ht, ← hf]
  | assumeInRange input base low high =>
    have hi := hτ input List.mem_cons_self
    have hb := hτ base (List.mem_cons_of_mem _ List.mem_cons_self)
    simp only [Agreed] at h ⊢
    rwa [← hi, ← hb]
  | argStore arg value =>
    have hv := hτ value List.mem_cons_self
    simp only [Agreed] at h ⊢
    rwa [← hv]
  | globalPtr nodes indices =>
    intro index hindex
    rw [← hτ index hindex]
    exact h index hindex
  | _ => trivial

namespace Settles

open Checker

variable {answer : Except Fatal Unit}

theorem start (hp : p.Coherent) (hclosed : p.Closed) : Settles ctx p [] { program := p } where
  toFollows := .start hp hclosed
  old x hx := nomatch hx
  homes c hc hlt := absurd hc (Nat.not_le.2 hlt)
  agreed front u back h := by cases front <;> cases h
  converts c hc hlt := absurd hc (Nat.not_le.2 hlt)

section Step

/-- A conversion that is there keeps its type when a rule is applied to an original instruction. -/
theorem typeAt_cast (h : Settles ctx p done s) (hp : p.Closed) (hu : u < p.size)
    (hdone : u ∉ done)
    (hobeys : Obeys ctx.signature p.size u s (ruling ctx (fun x => (s.program.instrAt x).isConst)
      s.program.typeAt u (s.program.instrAt u)) (.ok ()) s')
    (hc : p.size ≤ c) (hlt : c < s.program.size) : s'.program.typeAt c = s.program.typeAt c := by
  rw [hobeys.progress.types c hlt]
  refine (Ruling.typed_cases _ _ c).resolve_right ?_
  intro hmem
  -- a rule types its own instruction or an operand, and `u` still has its original operands
  have hold : ∀ o ∈ (p.instrAt u).operands, o ≠ c := by
    intro o ho hoc
    exact absurd (hp.operands u hu o ho) (Nat.not_lt.2 (hoc ▸ hc))
  rw [h.untouched u hu hdone] at hmem
  rcases mem_sets hmem with rfl | ⟨value, hi, -⟩ | ⟨first, last, body, hi, rfl | rfl, -⟩
  · exact absurd hu (Nat.not_lt.2 hc)
  · exact hold c (hi ▸ List.mem_cons_self) rfl
  · exact hold c (hi ▸ List.mem_cons_self) rfl
  · exact hold c (hi ▸ List.mem_cons_of_mem _ List.mem_cons_self) rfl

theorem asOf_eq (h : Settles ctx p done s) (hp : p.Closed) (hu : u < p.size) (hdone : u ∉ done)
    (hobeys : Obeys ctx.signature p.size u s (ruling ctx (fun x => (s.program.instrAt x).isConst)
      s.program.typeAt u (s.program.instrAt u)) (.ok ()) s')
    {v : StmtId} (hx : x < s.program.size) :
    asOf ctx p front v s.program x = asOf ctx p front v s'.program x := by
  unfold asOf
  split
  · rfl
  · next hge => exact (h.typeAt_cast hp hu hdone hobeys (Nat.le_of_not_lt hge) hx).symm

/-- Right after the rule of `u`, what was known when `u` was checked are the types that are
there. -/
theorem asOf_eq_typeAt (h : Settles ctx p done s) (hp : p.Closed) (hu : u < p.size)
    (hdone : u ∉ done)
    (hobeys : Obeys ctx.signature p.size u s (ruling ctx (fun x => (s.program.instrAt x).isConst)
      s.program.typeAt u (s.program.instrAt u)) (.ok ()) s') :
    asOf ctx p done u s'.program = s'.program.typeAt := by
  funext x
  unfold asOf
  split
  · next hlt => exact ((h.matches_step hp hu hdone hobeys).2.types x hlt).symm
  · rfl

/-- **One rule** adds what it makes sure of to what the earlier rules have made sure of. -/
theorem step (h : Settles ctx p done s) (hp : p.Closed) (hu : u < p.size) (hdone : u ∉ done)
    (hops : ∀ o ∈ (p.instrAt u).operands, o ∈ done)
    (hobeys : Obeys ctx.signature p.size u s (ruling ctx (fun x => (s.program.instrAt x).isConst)
      s.program.typeAt u (s.program.instrAt u)) (.ok ()) s') :
    Settles ctx p (done ++ [u]) s' := by
  have hext := hobeys.progress.moves.extension h.coherent
  -- what `u` reads was walked before it, so `u` does not read itself
  have hself : u ∉ (s.program.instrAt u).operands := by
    intro hmem
    rw [h.untouched u hu hdone] at hmem
    exact hdone (hops u hmem)
  refine ⟨h.toFollows.step hp hu hdone hobeys, ?_, ?_, ?_, ?_⟩
  · -- the instructions that were walked are original ones
    intro x hx
    exact (List.mem_append.1 hx).elim (h.old x) fun hx => List.mem_singleton.1 hx ▸ hu
  · refine hobeys.progress.moves.homes (D := fun b => ∃ x ∈ done ++ [u], b = p.homeAt x)
      h.coherent h.erases hu ⟨u, by simp, rfl⟩
      (fun o ho => ⟨o, List.mem_append_left _ (hops o ho), rfl⟩) ?_
    intro c hc hlt
    obtain ⟨x, hx, hhome⟩ := h.homes c hc hlt
    exact ⟨x, List.mem_append_left _ hx, hhome⟩
  · intro front v back heq
    rcases split_of_concat heq with ⟨back', rfl⟩ | ⟨rfl, rfl⟩
    · -- an earlier instruction
      have hvu : v ≠ u := fun hvu => hdone (by simp [hvu])
      have hv := h.lt_size (h.old v (by simp))
      rw [hobeys.progress.moves.instrAt_eq h.coherent hv hvu]
      exact agreed_congr (h.asOf_eq hp hu hdone hobeys hv)
        (fun o ho => h.asOf_eq hp hu hdone hobeys (h.closed.operands v hv o ho))
        (h.agreed front v back' rfl)
    · -- `u` itself, as its rule has left it
      rw [h.asOf_eq_typeAt hp hu hdone hobeys]
      exact hobeys.agreed rfl hself
  · intro c hc hlt
    rcases Nat.lt_or_ge c s.program.size with hlt' | hge
    · -- an earlier conversion
      obtain ⟨front, v, back, heq, o, ho, hstands, target, d, hi, hwidth⟩ := h.converts c hc hlt'
      -- an earlier conversion keeps its operand, which still has the type that it had
      have hd : d < s.program.size :=
        h.closed.operands c hlt' d (hi ▸ List.mem_singleton.2 rfl)
      refine ⟨front, v, back ++ [u], by rw [heq]; simp, o, ho, hext.standsFor hstands, target, d,
        ?_, ?_⟩
      · exact (hext.cast c (Instr.isValueCast_iff.2 ⟨_, _, hi⟩)).trans hi
      · rwa [← h.asOf_eq hp hu hdone hobeys hlt', ← h.asOf_eq hp hu hdone hobeys hd]
    · -- a conversion that this rule has made
      obtain ⟨o, ho, hstands, target, d, hi, hwidth⟩ := hobeys.progress.fresh c hge hlt
      refine ⟨done, u, [], rfl, o, h.untouched u hu hdone ▸ ho, hstands, target, d, hi, ?_⟩
      rw [h.asOf_eq_typeAt hp hu hdone hobeys]
      exact (hwidth hself).2

end Step

/-- **No conversion is met**: where the walk enters a block, it has not been there. -/
theorem listAt_lt {depth : Nat} {b : BlockId} (h : Settles ctx p done s) (hp : p.Coherent)
    (hfits : p.Fits depth b) (hall : done ++ p.order depth b <+: all) (hnodup : all.Nodup)
    (hc : c ∈ s.program.listAt b) : c < p.size := by
  by_contra hge
  -- its block owns an instruction that was walked, and that is about to be walked again
  obtain ⟨hlt, hhome⟩ := h.coherent.owned b c hc
  obtain ⟨x, hx, hhome'⟩ := h.homes c (Nat.le_of_not_lt hge) hlt
  have hxb : x ∈ p.listAt b := by
    rw [← hhome, hhome']
    exact hp.listed x (h.old x hx)
  have hmem : x ∈ p.order depth b := by
    cases depth with
    | zero => exact hfits.elim
    | succ depth => exact List.mem_flatMap.2 ⟨x, hxb, List.mem_cons_self⟩
  exact List.disjoint_of_nodup_append (hnodup.sublist hall.sublist) hx hmem

end Settles

/-- **A check that passes settles** everything that it walked, and keeps whatever else its rules
keep. -/
theorem exists_settled {Extra : List StmtId → CheckState → Prop} {o : Outcome} {report : Report}
    (hp : p.Coherent) (hclosed : p.Closed) (hfits : p.Fits p.nestingBound Program.root)
    (hnodup : (p.order p.nestingBound Program.root).Nodup)
    (hbefore : ∀ front u back, p.order p.nestingBound Program.root = front ++ u :: back →
      ∀ o ∈ (p.instrAt u).operands, o ∈ front)
    (hstart : Extra [] { program := p })
    (hstep : ∀ {done back s u left}, p.order p.nestingBound Program.root = done ++ u :: back →
      Settles ctx p done s → Extra done s → Settles ctx p (done ++ [u]) left →
      Checker.Obeys ctx.signature p.size u s (ruling ctx (fun x => (s.program.instrAt x).isConst)
        s.program.typeAt u (s.program.instrAt u)) (.ok ()) left →
      Checker.Revises ctx.config u s (.ok ()) left → Extra (done ++ [u]) left)
    (ho : p.typecheck ctx = .ok o) (hok : o.result = .ok report) :
    ∃ left, Settles ctx p (p.order p.nestingBound Program.root) left ∧
      Extra (p.order p.nestingBound Program.root) left ∧
      (ctx.config.verifyTotality = true → left.program.Total) ∧ o.program = left.program := by
  -- the walk keeps what is asked of it, and whatever more is asked, for the order up to here
  have hwalks : Checker.Walks True ctx p (p.order p.nestingBound Program.root)
      (fun done s => Settles ctx p done s ∧ Extra done s) (fun _ => False) (fun _ _ => True) :=
    { coherent := fun h => h.1.coherent
      extends' := fun h => h.1.erases.extends'
      enter := fun h hall hfits c hc hge =>
        absurd (h.1.listAt_lt hp hfits hall hnodup hc) (Nat.not_lt.2 hge)
      step := fun {done s u} h hall hu => by
        have hdone : u ∉ done := fun hmem =>
          List.disjoint_of_nodup_append (hnodup.sublist hall.sublist) hmem List.mem_cons_self
        -- `u` is the next of the order, so what is done is all that comes before it
        obtain ⟨back, heq⟩ := hall
        rw [List.append_assoc] at heq
        have hops : ∀ o ∈ (p.instrAt u).operands, o ∈ done := hbefore done u back heq.symm
        have hready := h.1.ready (h.1.lt_size hu)
        refine Checker.Ends.mono (Checker.Ends.and (Checker.rule_obeys hready (.inl trivial))
          fun r left hrun => (Checker.rule_revises hready (.inl trivial)).of_runOn hrun) ?_
        rintro r left ⟨hobeys, hrevises⟩
        refine ⟨hobeys.progress.size_le hready, ?_⟩
        cases r with
        | ok =>
          have hleft := h.1.step hclosed hu hdone hops hobeys
          exact ⟨hleft, hstep heq.symm h.1 h.2 hleft hobeys hrevises⟩
        | error fatal => trivial
      cast := fun _ hmet => hmet.elim }
  -- faults are excused, since this check is known to have come to an end
  have hends := hwalks.pass_ends (fun h => h.1.closed.grounded) hfits rfl
    ⟨.start hp hclosed, hstart⟩
  obtain ⟨left, ⟨⟨hleft, hextra⟩, htotal⟩, rfl⟩ := Checker.of_typecheck_ok hends ho hok
  exact ⟨left, hleft, hextra, htotal, rfl⟩

end TensorKernel
