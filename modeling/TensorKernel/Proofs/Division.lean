import TensorKernel.Proofs.Combining
import TensorKernel.Proofs.Lasting
import TensorKernel.Proofs.Rest

/-!
# Divisions are lowered

There are three divisions: floor division is one of integers, true division one of real numbers, and
the plain one takes its operands as they are. A check leaves only the plain one
(`typecheck_lowers`).

That the result is of the right class is a matter of the configuration, which names the types that
operands of the wrong class are converted to. If it is valid, lowering brings both operands into
the class, and promotion does not leave it (`BinaryOp.accepts_common`). That it is still so in the
end is a matter of the walk: an instruction is visited once, and what the visit left lasts
(`Trace.binary_left`, `Trace.division_left`).
-/

namespace TensorKernel

variable {ctx : CheckContext} {p : Program}

namespace BinaryOp

variable {config : Config} {op : BinaryOp} {target elem a b : ElementType}
  {accepts : ElementType → Bool}

/-! ### The class of a division -/

/-- Promotion stays in the class. -/
theorem accepts_promote (hop : op.lowering? config = some (target, accepts))
    (ha : accepts a = true) (hb : accepts b = true) :
    accepts (ElementType.promote a b) = true := by
  cases op with
  | floorDiv =>
    cases hop
    exact ElementType.isIntegral_promote ha hb
  | trueDiv =>
    cases hop
    exact ElementType.isReal_promote ha hb
  | _ => cases hop

/-- A valid configuration converts into the class. -/
theorem accepts_target (hop : op.lowering? config = some (target, accepts))
    (hconfig : config.validate = .ok ()) : accepts target = true := by
  obtain ⟨hint, hfloat⟩ := (Config.validate_eq_ok_iff config).1 hconfig
  cases op with
  | floorDiv =>
    cases hop
    exact hint
  | trueDiv =>
    cases hop
    exact hfloat
  | _ => cases hop

theorem accepts_lowered (hop : op.lowering? config = some (target, accepts))
    (hconfig : config.validate = .ok ()) : accepts (op.lowered config elem) = true := by
  rw [lowered, hop]
  show accepts (if accepts elem then elem else target) = true
  split
  · assumption
  · exact accepts_target hop hconfig

/-- **A division computes in its class**, whatever the types of its operands are. -/
theorem accepts_common (hop : op.lowering? config = some (target, accepts))
    (hconfig : config.validate = .ok ()) : accepts (op.common config a b) = true :=
  accepts_promote hop (accepts_lowered hop hconfig) (accepts_lowered hop hconfig)

/-- What is in the class is known. -/
theorem known_of_accepts (hop : op.lowering? config = some (target, accepts))
    (helem : accepts elem = true) : elem.isUnknown = false := by
  cases op with
  | floorDiv | trueDiv => cases hop; cases elem <;> first | rfl | cases helem
  | _ => cases hop

end BinaryOp

namespace Checker

open Program (Steps)

variable {order : List StmtId} {front back : List Visit} {v : Visit} {left : CheckState}
  {op : BinaryOp} {lhs rhs : StmtId}

/-- Whatever is lowered, what it leaves is the plain operator. -/
theorem Lowers.eq_undivided {config : Config} {op op' : BinaryOp} (h : Lowers op op')
    (hplain : op'.lowering? config = none) : op' = op.undivided := by
  obtain rfl | ⟨rfl | rfl, rfl⟩ := h
  · cases op' <;> first | rfl | cases hplain
  · rfl
  · rfl

/-! ### What a visit makes of an operator -/

section Visits

variable (h : Trace ctx p order (front ++ v :: back) left) (hp : p.Coherent) (hclosed : p.Closed)
  (hi : v.instr = .binary op lhs rhs)
include h hp hclosed hi

/-- A visit leaves the plain operator. -/
theorem Trace.instrAt_binary : ∃ l r, v.after.program.instrAt v.id = .binary op.undivided l r := by
  have hredirected := h.redirected hp hclosed
  rw [hi] at hredirected
  obtain ⟨op', l, r, hafter, hop⟩ := hredirected.exists_binary
  have hplain := (h.revises hp hclosed).plain rfl op' l r hafter
  exact ⟨l, r, Lowers.eq_undivided hop hplain ▸ hafter⟩

/-- **A visit of a division** leaves a type of its class. -/
theorem Trace.typeAt_division {target : ElementType} {accepts : ElementType → Bool}
    (hop : op.lowering? ctx.config = some (target, accepts))
    (hconfig : ctx.config.validate = .ok ()) :
    accepts (v.after.program.typeAt v.id).elem = true := by
  have hobeys := h.obeys hp hclosed
  rw [hi] at hobeys
  have htypes := hobeys.progress.types v.id h.comes.lt_size
  obtain ⟨hsets, -⟩ := Ruling.binary_sets (Ruling.answer_eq_ok_iff.1 hobeys.verdict.symm)
  rw [ruling, hsets, Ruling.typed, Ruling.typed, Function.update_self] at htypes
  -- a division gives its operands' type
  have hresult : ∀ t, op.resultType t = t := by
    intro t
    cases op <;> first | rfl | cases hop
  rw [htypes, hresult]
  exact BinaryOp.accepts_common hop hconfig

end Visits

/-! ### What is left of an operator in the end -/

section Order

variable {log : List Visit} {x : StmtId} (h : Trace ctx p order log left) (hp : p.Coherent)
  (hclosed : p.Closed) (hnodup : order.Nodup) (hx : x ∈ order) (hlt : x < p.size)
include h hp hclosed hnodup hx hlt

theorem Trace.plain_left (hleft : left.program.instrAt x = .binary op lhs rhs) :
    op.lowering? ctx.config = none := by
  obtain ⟨front, v, back, rfl, rfl⟩ := h.exists_visit hx
  rw [h.instrAt_left hp hclosed hnodup hlt] at hleft
  exact (h.revises hp hclosed).plain rfl op lhs rhs hleft

variable (hi : p.instrAt x = .binary op lhs rhs)
include hi

/-- An operator that can be reached is left as the plain one. -/
theorem Trace.binary_left : ∃ l r, left.program.instrAt x = .binary op.undivided l r := by
  obtain ⟨front, v, back, rfl, rfl⟩ := h.exists_visit hx
  rw [h.instrAt_left hp hclosed hnodup hlt]
  exact h.instrAt_binary hp hclosed ((h.comes.intact hlt).trans hi)

/-- **The result of a division that can be reached is of its class.** -/
theorem Trace.division_left {target : ElementType} {accepts : ElementType → Bool}
    (hop : op.lowering? ctx.config = some (target, accepts))
    (hconfig : ctx.config.validate = .ok ()) :
    accepts (left.program.typeAt x).elem = true := by
  obtain ⟨front, v, back, rfl, rfl⟩ := h.exists_visit hx
  have hclass := h.typeAt_division hp hclosed ((h.comes.intact hlt).trans hi) hop hconfig
  have hconst : (p.instrAt v.id).isConst = false := by rw [hi]; rfl
  rw [h.typeAt_left hp hclosed hnodup hlt (.inl rfl) hconst (BinaryOp.known_of_accepts hop hclass)]
  exact hclass

end Order

/-- **Nothing that can be reached in the end is lowered any more.** -/
theorem Trace.exists_plain {log : List Visit} (h : Trace ctx p order log left) (hp : p.Coherent)
    (hclosed : p.Closed) (hnodup : order.Nodup) (horder : p.reachable = .ok order) :
    ∃ final, left.program.reachable = .ok final ∧ ∀ x ∈ final, ∀ op lhs rhs,
      left.program.instrAt x = .binary op lhs rhs → op.lowering? ctx.config = none := by
  have hsteps := h.visits.steps hp hclosed
  have hext : p.Extends left.program := (Steps.erases hsteps hp).extends'
  obtain ⟨final, hfinal, hsize, hfilter⟩ :=
    hext.exists_reachable (Steps.coherent hsteps hp) horder
  refine ⟨final, hfinal, ?_⟩
  intro x hx op lhs rhs hi
  -- an original instruction was left plain by its visit
  rcases Nat.lt_or_ge x p.size with hlt | hge
  · have hmem := hfilter ▸ List.mem_filter.2 ⟨hx, decide_eq_true hlt⟩
    exact h.plain_left hp hclosed hnodup hmem hlt hi
  · -- what is new are conversions
    have hcast := hext.fresh x hge (hsize x hx)
    rw [hi] at hcast
    cases hcast

end Checker

namespace Program

open Checker
open Relation (TransGen)

/-- **Divisions are lowered, and computed in their class.** A check of a tree comes to an end. If
the configuration is valid and the check passes, nothing that can be reached is a floor or a true
division any more. What was a floor division is a plain one with an integral result, what was a
true division is one with a real result, and all other operators are what they were. (If no block
lies in itself, all instructions can be reached.) -/
theorem typecheck_lowers (hp : p.InRange ctx.storage) (htree : p.Tree)
    (hconfig : ctx.config.validate = .ok ()) :
    ∃ order o, p.reachable = .ok order ∧ p.typecheck ctx = .ok o ∧
      ((∀ b, ¬ TransGen p.Nests b b) → ∀ x < p.size, x ∈ order) ∧
      ∀ report, o.result = .ok report →
        (∃ final, o.program.reachable = .ok final ∧ ∀ x ∈ final, ∀ op lhs rhs,
          o.program.instrAt x = .binary op lhs rhs → op ≠ .floorDiv ∧ op ≠ .trueDiv) ∧
        (∀ x ∈ order, ∀ lhs rhs, p.instrAt x = .binary .floorDiv lhs rhs →
          (∃ l r, o.program.instrAt x = .binary .div l r) ∧
            (o.program.typeAt x).elem.isIntegral = true) ∧
        (∀ x ∈ order, ∀ lhs rhs, p.instrAt x = .binary .trueDiv lhs rhs →
          (∃ l r, o.program.instrAt x = .binary .div l r) ∧
            (o.program.typeAt x).elem.isReal = true) ∧
        ∀ x < p.size, ∀ op lhs rhs, p.instrAt x = .binary op lhs rhs → op ≠ .floorDiv →
          op ≠ .trueDiv → ∃ l r, o.program.instrAt x = .binary op l r := by
  obtain ⟨order, o, horder, hnodup, ho, hpassed⟩ := exists_check hp htree
  refine ⟨order, o, horder, ho, fun hcycle x => htree.mem_reachable hp.coherent horder hcycle, ?_⟩
  intro report hok
  obtain ⟨log, left, htrace, hprogram⟩ := hpassed report hok
  rw [hprogram]
  have hlt : ∀ {x}, x ∈ order → x < p.size := lt_size_of_mem_reachable horder
  have herases : p.Erases left.program :=
    Steps.erases (htrace.visits.steps hp.coherent hp.closed) hp.coherent
  refine ⟨?_, ?_, ?_, ?_⟩
  · obtain ⟨final, hfinal, hplain⟩ :=
      htrace.exists_plain hp.coherent hp.closed hnodup horder
    refine ⟨final, hfinal, ?_⟩
    -- of the operators only the two divisions are lowered
    intro x hx op lhs rhs hi
    have hlowering := hplain x hx op lhs rhs hi
    constructor <;> rintro rfl <;> cases hlowering
  · intro x hx lhs rhs hi
    exact ⟨htrace.binary_left hp.coherent hp.closed hnodup hx (hlt hx) hi,
      htrace.division_left hp.coherent hp.closed hnodup hx (hlt hx) hi rfl hconfig⟩
  · intro x hx lhs rhs hi
    exact ⟨htrace.binary_left hp.coherent hp.closed hnodup hx (hlt hx) hi,
      htrace.division_left hp.coherent hp.closed hnodup hx (hlt hx) hi rfl hconfig⟩
  · intro x hx op lhs rhs hi hfloor htrue
    -- an instruction that was no division keeps its operator
    have hredirected := herases.redirected x hx
    rw [hi] at hredirected
    obtain ⟨op', l, r, hleft, rfl | ⟨hdiv, -⟩⟩ := hredirected.exists_binary
    · exact ⟨l, r, hleft⟩
    · exact absurd hdiv (not_or.2 ⟨hfloor, htrue⟩)

/-- Both divisions, in a loop: of a real number by an integer, and of the result by that integer. -/
def divisionsProgram : Program where
  stmts := #[⟨0, .dummy, .scalar .f32, .const (.f32 0), root⟩,
    ⟨1, .dummy, .scalar .i32, .const (.i32 2), root⟩,
    ⟨2, .dummy, .scalar .unknown, .rangeFor 1 1 1, root⟩,
    ⟨3, .dummy, .scalar .unknown, .binary .floorDiv 0 1, 1⟩,
    ⟨4, .dummy, .scalar .unknown, .binary .trueDiv 3 1, 1⟩]
  blocks := #[⟨[0, 1, 2], none⟩, ⟨[3, 4], some 2⟩]

theorem typecheck_lowers_loop :
    divisionsProgram.InRange .empty ∧ divisionsProgram.Tree ∧ Config.validate {} = .ok () ∧
      ∃ o report, divisionsProgram.typecheck ⟨{}, {}, .empty⟩ = .ok o ∧ o.result = .ok report ∧
        report.casts = 3 ∧
        (∃ l r, o.program.instrAt 3 = .binary .div l r) ∧
        (o.program.typeAt 3).elem.isIntegral = true ∧
        (∃ l r, o.program.instrAt 4 = .binary .div l r) ∧
        (o.program.typeAt 4).elem.isReal = true := by
  have hbuild : build [.emit (.const (.f32 0)), .emit (.const (.i32 2)),
      .rangeFor 1 1 [.emit (.binary .floorDiv 0 1), .emit (.binary .trueDiv 3 1)]] =
      .ok (divisionsProgram, [0, 1, 2, 3, 4, 2]) := by decide +kernel
  have hp : divisionsProgram.InRange .empty :=
    inRange_of_build hbuild Storage.linked_empty (by decide) (by decide)
  have htree : divisionsProgram.Tree :=
    build_tree hbuild ⟨rfl, rfl, ⟨rfl, rfl, trivial⟩, trivial⟩
  refine ⟨hp, htree, rfl, ?_⟩
  -- all three conversions are inserted, two for one operand
  have hcasts : (divisionsProgram.typecheck ⟨{}, {}, .empty⟩).map
      (fun o => o.result.map Report.casts) = .ok (.ok 3) := by decide +kernel
  obtain ⟨o, report, ho, hok, hcount⟩ := exists_report hcasts
  have horder : divisionsProgram.reachable = .ok [0, 1, 2, 3, 4] := by decide
  obtain ⟨order, o', horder', ho', -, hlowers⟩ :=
    @typecheck_lowers ⟨{}, {}, .empty⟩ divisionsProgram hp htree rfl
  cases horder.symm.trans horder'
  cases ho.symm.trans ho'
  obtain ⟨-, hfloor, htrue, -⟩ := hlowers report hok
  obtain ⟨hdiv, hintegral⟩ := hfloor 3 (by decide) 0 1 rfl
  obtain ⟨hdiv', hreal⟩ := htrue 4 (by decide) 3 1 rfl
  exact ⟨o, report, ho, hok, hcount, hdiv, hintegral, hdiv', hreal⟩

end Program

end TensorKernel
