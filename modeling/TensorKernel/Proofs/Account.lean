import TensorKernel.Proofs.Ledger
import TensorKernel.Proofs.Visits

/-!
# The conversions of a whole check

A check keeps the account of its conversions from its first rule to its last (`Books`), also where
it meets conversions on its way and where it stops. Each conversion was inserted by one visit of the
log (`Visit.Puts`): it is one of the instructions that the visit has left and not found, and whether
it coerces an operand is told by the types that this visit has found.

What is known of a single conversion is gathered in `Booked`; `typecheck_books` says it of every
conversion of every check that comes to an end. If the check passes, what it counted is what it
added, and in a tree of which everything is reachable that is also what the reachable conversions
have become more (`casts_length`).
-/

namespace TensorKernel

/-- What is pointed elsewhere is no conversion, and does not become one. -/
theorem Redirected.isValueCast_eq {R : StmtId → StmtId → Prop} {i j : Instr}
    (h : Redirected R i j) : j.isValueCast = i.isValueCast := by
  cases h <;> rfl

/-- **The visit `v` inserted `c`**, and in `q` it stands where `v` has put it. -/
structure Checker.Visit.Puts (config : Config) (p : Program) (v : Checker.Visit) (q : Program)
    (c : StmtId) : Prop where
  ge : v.before.program.size ≤ c
  lt : c < v.after.program.size
  anchored : p.Anchored config v.id v.before.program q c

namespace Program

open Checker (Visit)

variable {config : Config} {p q r : Program} {log : List Visit} {x y u c : StmtId} {b : BlockId}
  {depth : Nat}

/-- **What is known of a conversion that was inserted**: it is one, it stands in one place, it is
read in one place, and it stands next to what the visit that inserted it has put it next to. -/
structure Booked (config : Config) (p : Program) (log : List Visit) (q : Program) (c : StmtId) :
    Prop where
  cast : (q.instrAt c).isValueCast = true
  listed : ∃ b, (q.listAt b).count c = 1 ∧ ∀ b', c ∈ q.listAt b' → b' = b
  read : q.reads.count c = 1
  put : ∃ v ∈ log, v.Puts config p q c

/-- **The conversions of `q` are accounted for** by the visits of a log. -/
structure Accounts (config : Config) (p : Program) (log : List Visit) (q : Program) : Prop where
  ledger : p.Ledger q
  put : ∀ c, p.size ≤ c → c < q.size → ∃ v ∈ log, v.Puts config p q c

namespace Accounts

theorem refl (hp : p.Coherent) : p.Accounts config [] p where
  ledger := .refl hp
  put _ hc hlt := absurd hc (Nat.not_le.2 hlt)

/-- **One visit more**, with the conversions that it inserts. -/
theorem visit {s left : CheckState} (h : p.Accounts config log s.program) (hp : p.Closed)
    (hedits : Edits config u s.program s.program left.program)
    (hdiv : ∀ op lhs rhs, s.program.instrAt u = .binary op lhs rhs →
      (op.lowering? config).isSome = true → p.instrAt u = .binary op lhs rhs) :
    p.Accounts config (log ++ [⟨u, s, left⟩]) left.program where
  ledger := h.ledger.edits hedits
  put c hc hlt := by
    have hs := h.ledger.coherent
    have hext := h.ledger.extends'
    rcases Nat.lt_or_ge c s.program.size with hold | hnew
    · -- the earlier ones stay where they are
      obtain ⟨v, hv, hputs⟩ := h.put c hc hold
      exact ⟨v, List.mem_append_left _ hv, hputs.ge, hputs.lt,
        hputs.anchored.edits hedits hs hext.size_le hold⟩
    · -- those of this visit are where it has just put them
      exact ⟨_, List.mem_append_right _ List.mem_cons_self, hnew, hlt,
        Edits.anchored hedits hp hext hs hdiv c hnew hlt⟩

theorem booked (h : p.Accounts config log q) (hp : p.Closed) (hc : p.size ≤ c)
    (hlt : c < q.size) : p.Booked config log q c where
  cast := h.ledger.extends'.fresh c hc hlt
  listed := by
    refine ⟨q.homeAt c, ?_, ?_⟩
    · exact List.count_eq_one_of_mem (h.ledger.coherent.nodup _) (h.ledger.coherent.listed c hlt)
    · exact fun b' hb' => (h.ledger.coherent.owned b' c hb').2.symm
  read := h.ledger.count_reads hp hc hlt
  put := h.put c hc hlt

end Accounts

/-! ### Conversions that can be reached -/

private theorem filterAuxM_eq {f : StmtId → Except Fault Bool} {keep : StmtId → Bool}
    {l acc : List StmtId} (h : ∀ x ∈ l, f x = .ok (keep x)) :
    l.filterAuxM f acc = .ok ((l.filter keep).reverse ++ acc) := by
  induction l generalizing acc with
  | nil => rfl
  | cons x l ih =>
    rw [List.filterAuxM, h x List.mem_cons_self, Fault.bind_eq_ok_iff]
    refine ⟨_, rfl, ?_⟩
    rw [ih fun y hy => h y (List.mem_cons_of_mem _ hy), List.filter_cons]
    cases keep x <;> simp

/-- The conversions that can be reached, as a plain list. -/
theorem casts_eq (h : p.Fits p.nestingBound root) :
    p.casts = .ok ((p.order p.nestingBound root).filter fun x => (p.instrAt x).isValueCast) := by
  rw [casts, reachable, contents_eq h, Fault.bind_eq_ok_iff]
  refine ⟨_, rfl, ?_⟩
  -- everything in the order exists, so looking it up does not fail
  have hkeep : ∀ x ∈ p.order p.nestingBound root,
      (do return (← p.stmt x).instr.isValueCast) = Except.ok (ε := Fault)
        (p.instrAt x).isValueCast := by
    intro x hx
    rw [stmt_eq (lt_size_of_mem_order h hx)]
    rfl
  rw [List.filterM, filterAuxM_eq hkeep, List.append_nil]
  show Except.ok (List.reverse (List.reverse _)) = _
  rw [List.reverse_reverse]

/-- What shares a block with something that can be reached can be reached. -/
theorem mem_order_of_home (hq : q.Coherent) (hx : x ∈ q.order depth b)
    (hy : y ∈ q.listAt (q.homeAt x)) : y ∈ q.order depth b := by
  induction depth generalizing b with
  | zero => cases hx
  | succ depth ih =>
    obtain ⟨z, hz, hx⟩ := List.mem_flatMap.1 hx
    rcases List.mem_cons.1 hx with rfl | hx
    · rw [(hq.owned b x hz).2] at hy
      exact List.mem_flatMap.2 ⟨y, hy, List.mem_cons_self⟩
    · -- both are nested in one block of `z`
      obtain ⟨b', hb', hx⟩ := List.mem_flatMap.1 hx
      exact List.mem_flatMap.2
        ⟨z, hz, List.mem_cons_of_mem _ (List.mem_flatMap.2 ⟨b', hb', ih hx⟩)⟩

/-- Conversions nest nothing, so what was a tree still is one. -/
theorem Extends.tree (h : p.Extends q) (hp : p.Tree) : q.Tree := by
  have hslots : q.slots = p.slots := by
    obtain ⟨k, hk⟩ := Nat.exists_eq_add_of_le h.size_le
    have hold : ∀ x ∈ List.range p.size, (q.instrAt x).blocks = (p.instrAt x).blocks :=
      fun x hx => h.nested x (List.mem_range.1 hx)
    -- what was inserted are conversions, which nest nothing
    have hnew : ∀ x ∈ List.map (p.size + ·) (List.range k), (q.instrAt x).blocks = [] := by
      intro x hx
      obtain ⟨j, hj, rfl⟩ := List.mem_map.1 hx
      have hlt : p.size + j < q.size := hk ▸ Nat.add_lt_add_left (List.mem_range.1 hj) _
      obtain ⟨_, _, hi⟩ := Instr.isValueCast_iff.1 (h.fresh _ (Nat.le_add_right _ _) hlt)
      rw [hi]
      rfl
    -- the slots are those of the old instructions, and of the new ones there are none
    rw [slots, slots, hk, List.range_add, List.flatMap_append, List.flatMap_congr hold,
      List.flatMap_eq_nil_iff.2 hnew, List.append_nil]
  constructor
  · rw [hslots]
    exact hp.nodup
  · intro b
    rw [hslots, h.blocks_size]
    exact hp.mem_slots b

/-- Everything can be reached. -/
def Connected (p : Program) : Prop :=
  ∃ order, p.reachable = .ok order ∧ ∀ x < p.size, x ∈ order

/-- A new conversion can be reached if everything else can. -/
theorem Accounts.mem_order (h : p.Accounts config log q) (hfits : p.Fits depth b)
    (hall : ∀ x < p.size, x ∈ p.order depth b) (hc : p.size ≤ c) (hlt : c < q.size) :
    c ∈ q.order depth b := by
  have hq := h.ledger.coherent
  obtain ⟨v, -, hputs⟩ := h.put c hc hlt
  obtain ⟨x, hx, hhome⟩ := hputs.anchored.exists_home hq
  have hmem : x ∈ q.order depth b := by
    have hold := hall x hx
    rw [← h.ledger.extends'.order_filter hq hfits] at hold
    exact (List.mem_filter.1 hold).1
  exact mem_order_of_home hq hmem (hhome ▸ hq.listed c hlt)

/-- **In a tree of which everything can be reached**, as many conversions can be reached more as
there are new ones. -/
theorem casts_length (h : p.Accounts config log q) (he : p.Erases q) (hp : p.Coherent)
    (hclosed : p.Closed) (htree : p.Tree) (hconnected : p.Connected) :
    ∃ before after, p.casts = .ok before ∧ q.casts = .ok after ∧
      after.length = before.length + (q.size - p.size) := by
  have hq := h.ledger.coherent
  have hext := h.ledger.extends'
  have hfits := fits_of_acyclic hp hclosed (htree.acyclic hp)
  have hbound : q.nestingBound = p.nestingBound := hext.blocks_size
  have hfits' : q.Fits p.nestingBound root := hext.fits hq hfits
  -- the depth that the walk of `q` goes to is that of `p`, since there are as many blocks
  have hcasts := casts_eq (hbound ▸ hfits')
  rw [hbound] at hcasts
  refine ⟨_, _, casts_eq hfits, hcasts, ?_⟩
  obtain ⟨order, horder, hall⟩ := hconnected
  rw [reachable, contents_eq hfits] at horder
  cases horder
  rw [List.length_eq_length_filter_add (fun x => decide (x < p.size))]
  congr 1
  · -- those that were there are the reachable conversions of `p`
    rw [List.filter_filter, List.filter_congr fun x _ => Bool.and_comm _ _, ← List.filter_filter,
      hext.order_filter hq hfits]
    refine congrArg List.length (List.filter_congr fun x hx => ?_)
    exact (he.redirected x (lt_size_of_mem_order hfits hx)).isValueCast_eq
  · -- the others are all that was inserted
    have hnodup : (q.order p.nestingBound root).Nodup :=
      (hext.tree htree).order_nodup hq .refl
    have hnew : (((q.order p.nestingBound root).filter fun x => (q.instrAt x).isValueCast).filter
        fun x => !decide (x < p.size)).Perm (List.range' p.size (q.size - p.size)) := by
      refine (List.perm_ext_iff_of_nodup ((hnodup.filter _).filter _) List.nodup_range').2 ?_
      intro x
      have hmem : x ∈ List.range' p.size (q.size - p.size) ↔ p.size ≤ x ∧ x < q.size := by
        rw [List.mem_range'_1, Nat.add_sub_cancel' hext.size_le]
      -- a new number is in the final order exactly if it is one of the conversions
      rw [hmem, List.mem_filter, List.mem_filter]
      constructor
      · rintro ⟨⟨hx, -⟩, hge⟩
        exact ⟨by simpa using hge, lt_size_of_mem_order hfits' hx⟩
      · rintro ⟨hge, hlt⟩
        refine ⟨⟨h.mem_order hfits hall hge hlt, hext.fresh x hge hlt⟩, ?_⟩
        simpa using hge
    rw [hnew.length_eq, List.length_range']

end Program

namespace Checker

variable {ctx : CheckContext} {p : Program} {order done : List StmtId} {log : List Visit}
  {s : CheckState} {u : StmtId}

/-- **The state of a check that keeps account**, when it has walked so far. -/
structure Books (ctx : CheckContext) (p : Program) (order done : List StmtId) (log : List Visit)
    (s : CheckState) : Prop where
  visits : Visits ctx { program := p } log s
  walked : (log.map Visit.id).filter (· < p.size) = done
  along : done <+: order
  accounts : p.Accounts ctx.config log s.program
  /-- A division that is still there has not been touched. -/
  divisions : ∀ x op lhs rhs, s.program.instrAt x = .binary op lhs rhs →
    (op.lowering? ctx.config).isSome = true → p.instrAt x = .binary op lhs rhs

/-- A check that has stopped, and has kept account to the end. -/
def Closes (ctx : CheckContext) (p : Program) (order : List StmtId) (fatal : Fatal)
    (left : CheckState) : Prop :=
  (∃ log, Logged ctx p order log left ∧ p.Accounts ctx.config log left.program) ∧
    fatal.stmt < left.program.size

/-- **Every rule keeps account**, whether it passes or stops. -/
theorem rule_books (hp : p.InRange ctx.storage) (h : Books ctx p order done log s)
    (hu : u < s.program.size) (hall : done ++ [u].filter (· < p.size) <+: order) :
    Ends False s (rule ctx u (s.program.instrAt u))
      (Goes s (fun left => ∃ log, Books ctx p order (done ++ [u].filter (· < p.size)) log left)
        (Closes ctx p order)) := by
  have hs := Program.Steps.inRange (h.visits.steps hp.coherent hp.closed) hp
  have hready := h.visits.ready hp.coherent hp.closed hu
  have hanswers := Or.inr (a := False) (hs.answers hu)
  have hboth := Ends.and (rule_obeys hready hanswers) fun r left hrun =>
    And.intro ((rule_revises hready hanswers).of_runOn hrun) hrun
  refine hboth.mono ?_
  rintro r left ⟨hobeys, hrevises, hrun⟩
  have haccounts := h.accounts.visit hp.closed hrevises.edits fun op lhs rhs =>
    h.divisions u op lhs rhs
  have hle := hobeys.progress.size_le hready
  -- a conversion that is met leaves the walked part of the order as it is
  have hwalked : (log.map Visit.id ++ [u]).filter (· < p.size) =
      done ++ [u].filter (· < p.size) := by
    rw [List.filter_append, h.walked]
  refine ⟨hle, ?_⟩
  cases r with
  | ok =>
    refine ⟨_, h.visits.snoc hu hrun, ?_, hall, haccounts, ?_⟩
    · rw [List.map_append]
      exact hwalked
    intro x op lhs rhs hi hop
    -- the rule leaves its own instruction no division, and the others as they are
    have hxu : x ≠ u := by
      rintro rfl
      rw [hrevises.plain rfl op lhs rhs hi] at hop
      cases hop
    have hext := hobeys.progress.moves.extension hs.coherent
    have hlt : x < s.program.size := by
      by_contra hge
      have hx : x < left.program.size :=
        Program.lt_size_of_instrAt_ne (by rw [hi]; simp)
      have hcast := hext.fresh x (Nat.le_of_not_lt hge) hx
      rw [hi] at hcast
      cases hcast
    rw [hobeys.progress.moves.instrAt_eq hs.coherent hlt hxu] at hi
    exact h.divisions x op lhs rhs hi hop
  | error fatal =>
    -- a rule that stops has inserted conversions too, and they are in the account
    obtain ⟨error, -, rfl⟩ := Ruling.answer_eq_error_iff.1 hobeys.verdict.symm
    have hlogged := Logged.stopped h.visits hu hrun (hwalked.symm ▸ hall)
    exact ⟨⟨_, hlogged, haccounts⟩, Nat.lt_of_lt_of_le hu hle⟩

/-- **A check comes to an end, and has kept account to the end.** -/
theorem pass_books (hp : p.InRange ctx.storage) (hacyclic : p.Acyclic) :
    ∃ answer log left, p.typecheck ctx = .ok (outcome answer left) ∧
      Logged ctx p (p.order p.nestingBound Program.root) log left ∧
      p.Accounts ctx.config log left.program ∧ left.program.size = p.size + left.casts := by
  have hstart : Books ctx p (p.order p.nestingBound Program.root) [] [] { program := p } :=
    ⟨.nil, rfl, List.nil_prefix, .refl hp.coherent, fun _ _ _ _ hi _ => hi⟩
  -- original instructions and conversions that are met are treated alike
  have hwalks : Walks False ctx p (p.order p.nestingBound Program.root)
      (fun done s => ∃ log, Books ctx p (p.order p.nestingBound Program.root) done log s)
      (fun _ => True) (Closes ctx p (p.order p.nestingBound Program.root)) :=
    { coherent := fun ⟨_, h⟩ => h.accounts.ledger.coherent
      extends' := fun ⟨_, h⟩ => h.accounts.ledger.extends'
      enter := fun _ _ _ _ _ _ => trivial
      step := fun {done s u} ⟨log, h⟩ hall hu => by
        have hfilter : [u].filter (· < p.size) = [u] := List.filter_cons_of_pos (by simpa using hu)
        have hlt := Nat.lt_of_lt_of_le hu h.accounts.ledger.extends'.size_le
        have hrule := rule_books hp h hlt (hfilter.symm ▸ hall)
        rwa [hfilter] at hrule
      cast := fun {done s c} ⟨log, h⟩ _ hc hlt => by
        have hfilter : [c].filter (· < p.size) = [] := List.filter_cons_of_neg (by simpa using hc)
        have hrule := rule_books hp h hlt (by rw [hfilter, List.append_nil]; exact h.along)
        rwa [hfilter, List.append_nil] at hrule }
  have hgoes := hwalks.pass_goes
    (fun ⟨_, h⟩ => Program.Steps.closed (h.visits.steps hp.coherent hp.closed) hp.closed)
    (Program.fits_of_acyclic hp.coherent hp.closed hacyclic) ⟨_, hstart⟩
  -- what is added is what is counted, however the check ends
  have hends := hgoes.and fun r left hrun => casts_eq_growth hrun
  obtain ⟨answer, left, htype, hpost, hgrowth⟩ := exists_typecheck hends fun fatal left hpost => by
    obtain ⟨⟨-, hlt⟩ | ⟨-, -, hlt⟩, -⟩ := hpost
    · exact hlt
    · exact hlt
  cases answer with
  | ok =>
    obtain ⟨log, hbooks⟩ := hpost
    exact ⟨_, log, left, htype, .passed hbooks.visits hbooks.walked, hbooks.accounts, hgrowth⟩
  | error fatal =>
    rcases hpost with ⟨⟨log, hlogged, haccounts⟩, -⟩ | ⟨-, ⟨log, hbooks⟩, -⟩
    · exact ⟨_, log, left, htype, hlogged, haccounts, hgrowth⟩
    · exact ⟨_, log, left, htype, .passed hbooks.visits hbooks.walked, hbooks.accounts, hgrowth⟩

end Checker

namespace Program

open Checker (Logged)

variable {ctx : CheckContext} {p : Program}

/-- **Every conversion is accounted for**, whether the check passes or not: it is listed once, read
once, and was inserted by one of the rules that the check has applied. If it coerces an operand of a
division, by the types that this rule has found, it stands behind that operand, and otherwise before
the instruction of the rule; only conversions lie in between, and it has the span of what it stands
next to. If the check passes, it counted as many conversions as it added instructions, and if the
program is a tree of which everything can be reached, as many conversions more can be reached. -/
theorem typecheck_books (hp : p.InRange ctx.storage) (hacyclic : p.Acyclic) :
    ∃ o order log left, p.typecheck ctx = .ok o ∧ p.reachable = .ok order ∧
      Logged ctx p order log left ∧ o.program = left.program ∧
      (∀ c, p.size ≤ c → c < o.program.size → p.Booked ctx.config log o.program c) ∧
      ∀ report, o.result = .ok report → o.program.size = p.size + report.casts ∧
        (p.Tree → p.Connected → ∃ before after, p.casts = .ok before ∧
          o.program.casts = .ok after ∧ after.length = before.length + report.casts) := by
  obtain ⟨answer, log, left, htype, hlogged, haccounts, hgrowth⟩ :=
    Checker.pass_books hp hacyclic
  have hfits := fits_of_acyclic hp.coherent hp.closed hacyclic
  refine ⟨_, _, log, left, htype, contents_eq hfits, hlogged, rfl,
    fun c hc hlt => haccounts.booked hp.closed hc hlt, ?_⟩
  intro report hok
  cases answer with
  | error fatal => cases hok
  | ok =>
    cases hok
    refine ⟨hgrowth, fun htree hconnected => ?_⟩
    have hsteps := hlogged.steps hp.coherent hp.closed
    have hlength := casts_length haccounts (Steps.erases hsteps hp.coherent) hp.coherent hp.closed
      htree hconnected
    -- as many as were added, since each one was counted when it was inserted
    have hcount : left.program.size - p.size = left.casts := by omega
    rwa [hcount] at hlength

theorem typecheck_books_loop :
    loopProgram.InRange .empty ∧ loopProgram.Acyclic ∧
      ∃ o order log left, loopProgram.typecheck ⟨{}, {}, .empty⟩ = .ok o ∧
        o.program.size = 5 ∧ o.program.instrAt 3 = .binary .div 0 4 ∧
        o.program.instrAt 4 = .unary (.cast .i32 true) 1 ∧
        o.program.listAt root = [0, 1, 4, 2] ∧
        loopProgram.reachable = .ok order ∧
        Logged ⟨{}, {}, .empty⟩ loopProgram order log left ∧ o.program = left.program ∧
        (∀ c, loopProgram.size ≤ c → c < o.program.size →
          loopProgram.Booked {} log o.program c) ∧
        ∀ report, o.result = .ok report → o.program.size = loopProgram.size + report.casts ∧
          (loopProgram.Tree → loopProgram.Connected → ∃ before after,
            loopProgram.casts = .ok before ∧ o.program.casts = .ok after ∧
              after.length = before.length + report.casts) := by
  have hacyclic := loopProgram_tree.acyclic loopProgram_inRange.coherent
  obtain ⟨o, order, log, left, ho, hbooks⟩ :=
    typecheck_books (show loopProgram.InRange (CheckContext.mk {} {} .empty).storage from
      loopProgram_inRange) hacyclic
  -- the account of the general theorem, and what came of this program
  obtain ⟨hsize, hdiv, hcast, hlist⟩ := loopProgram_converts ho
  exact ⟨loopProgram_inRange, hacyclic, o, order, log, left, ho, hsize, hdiv, hcast, hlist, hbooks⟩

end Program

end TensorKernel
