import TensorKernel.Proofs.Erasure
import TensorKernel.Proofs.Ruling

/-!
# What becomes of an inserted conversion

A `Move` says what a rule may touch. What it leaves open is what the conversions are for: by moves
alone a rule could insert a conversion and never point anything at it. `Program.Edit` is the finer
list of what the rule of an instruction `u` does to the program `start` that it finds. A conversion
is inserted and `u` is pointed at it in one edit, in the place of what is converted, and the edit
says why:

* `Edit.after` — for an operand of a division, right behind that operand, because the division
  computes at another class of types (`Coerces`);
* `Edit.before` — for any other operand of `u`, right before `u`. Only stores and atomic operations
  convert to a type that does not hold the value, and then they have a loss to report
  (`Instr.loss`);
* `Edit.lower` — a division whose operands are of the right class becomes a plain one;
* `Edit.types` — types are set, of instructions that were there at the start.

The rules do insert first and point later, but that makes no difference to the program they leave
(`rewrite_splice_rewrite`).
-/

namespace TensorKernel

/-- `j` is `i` with the operand `o` replaced by `e`, in one of the places where rules replace
operands. -/
inductive Swaps (o e : StmtId) : Instr → Instr → Prop
  | lhs {op : BinaryOp} {rhs : StmtId} : Swaps o e (.binary op o rhs) (.binary op e rhs)
  | rhs {op : BinaryOp} {lhs : StmtId} : Swaps o e (.binary op lhs o) (.binary op lhs e)
  | onTrue {cond onFalse : StmtId} :
      Swaps o e (.ternary .select cond o onFalse) (.ternary .select cond e onFalse)
  | onFalse {cond onTrue : StmtId} :
      Swaps o e (.ternary .select cond onTrue o) (.ternary .select cond onTrue e)
  | localStore {slot : StmtId} : Swaps o e (.localStore slot o) (.localStore slot e)
  | globalStore {ptr : StmtId} : Swaps o e (.globalStore ptr o) (.globalStore ptr e)
  | atomic {op : AtomicOp} {dest : StmtId} : Swaps o e (.atomic op dest o) (.atomic op dest e)

namespace Instr

/-- The value that an instruction writes to memory, if it is one that converts it. -/
def value? : Instr → Option StmtId
  | localStore _ value | globalStore _ value | atomic _ _ value => some value
  | _ => none

/-- **What an instruction has to report**, from the types it finds: a store to a typed place whose
value does not fit there, and an atomic operation whose value has another type than its place. A
store that is its own value has the type of its place when the value is looked at. -/
def loss (τ : TypeMap) (u : StmtId) : Instr → Option PrecisionLoss
  | localStore slot value =>
    if (τ slot).isUnknown = false ∧ value ≠ u ∧
        ElementType.narrows (τ slot).elem (τ value).elem = true then
      some ⟨.localStore, (τ slot).elem, (τ value).elem⟩
    else none
  | globalStore ptr value =>
    if value ≠ u ∧ ElementType.narrows (τ ptr).elem (τ value).elem = true then
      some ⟨.globalStore, (τ ptr).elem, (τ value).elem⟩
    else none
  | atomic _ dest value =>
    if (τ value).elem ≠ (τ dest).elem then some ⟨.atomic, (τ dest).elem, (τ value).elem⟩ else none
  | _ => none

end Instr

namespace Swaps

variable {o e x : StmtId} {i j : Instr}

theorem redirected (h : Swaps o e i j) : Redirected (fun _ _ => True) i j := by
  cases h with
  | lhs | rhs => exact .binary (.inl rfl) trivial trivial
  | onTrue | onFalse => exact .select trivial trivial
  | localStore => exact .localStore trivial
  | globalStore => exact .globalStore trivial
  | atomic => exact .atomic trivial

theorem not_isValueCast (h : Swaps o e i j) : i.isValueCast = false := by
  cases h <;> rfl

theorem mem_operands_new (h : Swaps o e i j) : e ∈ j.operands := by
  cases h <;> simp [Instr.operands]

private theorem swap_middle (front back : List StmtId) :
    (e :: (front ++ o :: back)).Perm (o :: (front ++ e :: back)) :=
  (List.perm_middle.cons e).trans ((List.Perm.swap o e _).trans (List.perm_middle.symm.cons o))

/-- **One reading of `o` becomes a reading of `e`**, and nothing else is read differently. -/
theorem operands_perm (h : Swaps o e i j) : (e :: i.operands).Perm (o :: j.operands) := by
  cases h with
  | @lhs op rhs => exact swap_middle [] [rhs]
  | @rhs op lhs => exact swap_middle [lhs] []
  | @onTrue cond onFalse => exact swap_middle [cond] [onFalse]
  | @onFalse cond onTrue => exact swap_middle [cond, onTrue] []
  | @localStore place | @globalStore place | @atomic op place => exact swap_middle [place] []

/-- What is still read, or what it was replaced by. -/
theorem operand_cases (h : Swaps o e i j) (hx : x ∈ i.operands) : x ∈ j.operands ∨ x = o := by
  have hmem := h.operands_perm.subset (List.mem_cons_of_mem e hx)
  exact (List.mem_cons.1 hmem).symm

theorem value?_eq (h : Swaps o e i j) :
    i.value? = none ∧ j.value? = none ∨ i.value? = some o ∧ j.value? = some e := by
  cases h with
  | lhs | rhs | onTrue | onFalse => exact .inl ⟨rfl, rfl⟩
  | localStore | globalStore | atomic => exact .inr ⟨rfl, rfl⟩

end Swaps

namespace Program

variable {n : Nat} {p q r : Program} {u x d : StmtId} {i j : Instr} {t : ElementType}

/-! ### Pointing later or at once -/

/-- A program is what its views show. -/
theorem ext_views (hsize : p.size = q.size) (hstmts : ∀ x < p.size, p.stmtAt x = q.stmtAt x)
    (hblocks : p.blocks = q.blocks) : p = q := by
  obtain ⟨stmts, blocks⟩ := p
  obtain ⟨stmts', blocks'⟩ := q
  have heq : stmts = stmts' := by
    refine Array.ext hsize fun x hx hx' => ?_
    have hstmt := hstmts x hx
    unfold stmtAt at hstmt
    rwa [Array.getElem?_eq_getElem hx, Array.getElem?_eq_getElem hx'] at hstmt
  rw [heq, show blocks = blocks' from hblocks]

/-- To point an instruction at what it is pointed at changes nothing. -/
theorem rewrite_instrAt : p.rewrite u (p.instrAt u) = p := by
  refine ext_views size_rewrite (fun x _ => ?_) rfl
  rw [stmtAt_rewrite]
  split
  · next hxu =>
    obtain ⟨rfl, -⟩ := hxu
    rfl
  · rfl

/-- Only the last of several ways in which an instruction was pointed counts. -/
theorem rewrite_rewrite : (p.rewrite u i).rewrite u j = p.rewrite u j := by
  refine ext_views (by simp) (fun x _ => ?_) rfl
  rw [stmtAt_rewrite, stmtAt_rewrite, stmtAt_rewrite, size_rewrite]
  split <;> rfl

/-- **An insertion does not ask what instructions do**, so an instruction may as well be pointed
elsewhere before it. -/
theorem rewrite_splice_rewrite {side : Side} {anchor : StmtId} (h : u < p.size) :
    ((p.rewrite u i).splice side anchor d t).rewrite u j =
      (p.splice side anchor d t).rewrite u j := by
  have hsize : (p.rewrite u i).size = p.size := size_rewrite
  refine ext_views (by simp) (fun x hx => ?_) ?_
  · rw [size_rewrite, size_splice, hsize] at hx
    rw [stmtAt_rewrite, stmtAt_rewrite, size_splice, size_splice, hsize]
    rcases Nat.lt_succ_iff_lt_or_eq.1 hx with hlt | rfl
    · rw [stmtAt_splice_of_lt (hsize.symm ▸ hlt), stmtAt_splice_of_lt hlt, stmtAt_rewrite]
      -- of `u` only the last change counts, and nothing else was changed
      by_cases hxu : x = u
      · have hu : x = u ∧ u < p.size + 1 := ⟨hxu, Nat.lt_succ_of_lt h⟩
        rw [if_pos hu, if_pos ⟨hxu, h⟩, if_pos hu]
      · have hne : ∀ k, ¬ (x = u ∧ u < k) := fun k hx => hxu hx.1
        rw [if_neg (hne _), if_neg (hne _), if_neg (hne _)]
    · have hne : ¬ (p.size = u ∧ u < p.size + 1) := fun hu => Nat.ne_of_lt h hu.1.symm
      have hnew : ((p.rewrite u i).splice side anchor d t).stmtAt p.size =
          (p.splice side anchor d t).stmtAt p.size := by
        have hsplice : ((p.rewrite u i).splice side anchor d t).stmtAt (p.rewrite u i).size = _ :=
          stmtAt_splice_size
        rw [hsize, spanAt_rewrite, typeAt_rewrite, homeAt_rewrite] at hsplice
        rw [hsplice, stmtAt_splice_size]
      rw [if_neg hne, if_neg hne, hnew]
  · show ((p.rewrite u i).splice side anchor d t).blocks = (p.splice side anchor d t).blocks
    unfold splice
    simp only [homeAt_rewrite, listAt_rewrite, size_rewrite]
    rfl

/-! ### Edits -/

/-- Nothing but types differs, and those only of instructions before number `k`. -/
structure Retyped (k : Nat) (p q : Program) : Prop where
  coherent : p.Coherent → q.Coherent
  extends' : p.Coherent → p.Extends q
  size_eq : q.size = p.size
  instr_eq : q.instrAt = p.instrAt
  type_eq : ∀ x, k ≤ x → q.typeAt x = p.typeAt x

theorem retyped_retype {k : Nat} {t : VectorType} (hx : x < k) : p.Retyped k (p.retype x t) where
  coherent hp := hp.retype
  extends' hp := hp.extends_retype
  size_eq := size_retype
  instr_eq := funext fun _ => instrAt_retype
  type_eq y hy := by
    have hne : ¬ (y = x ∧ x < p.size) := fun h => Nat.ne_of_gt (Nat.lt_of_lt_of_le hx hy) h.1
    rw [typeAt, stmtAt_retype, if_neg hne, typeAt]

/-- The element type at which the rule that started from `start` finds `d`: of what was there, the
one it had at the start; of a conversion, the one it was made with. -/
def found (start p : Program) (d : StmtId) : ElementType :=
  if d < start.size then (start.typeAt d).elem else (p.typeAt d).elem

/-- `d` is an operand of the division `u`, and not of the class of types at which this division
computes. -/
def Coerces (config : Config) (start : Program) (u : StmtId) (t : ElementType) (d : StmtId) :
    Prop :=
  ∃ op lhs rhs accepts, start.instrAt u = .binary op lhs rhs ∧
    op.lowering? config = some (t, accepts) ∧ (d = lhs ∨ d = rhs) ∧
    accepts (start.typeAt d).elem = false

/-- Where nothing is lowered, nothing is coerced. -/
theorem not_coerces_of_plain {config : Config} {start : Program}
    (h : ∀ op lhs rhs, start.instrAt u = .binary op lhs rhs → op.lowering? config = none) :
    ¬ start.Coerces config u t d := by
  rintro ⟨op, lhs, rhs, _, hi, hop, -⟩
  rw [h op lhs rhs hi] at hop
  cases hop

/-- `u` has a loss to report, about `t` and the element type at which `d` is found, and `d` is the
value that it writes. -/
def Reports (start p : Program) (u : StmtId) (t : ElementType) (d : StmtId) : Prop :=
  ∃ access, (start.instrAt u).loss start.typeAt u = some ⟨access, t, start.found p d⟩ ∧
    (p.instrAt u).value? = some d

/-- **What the rule of `u` does**, on its way from `start`, to a program `p`. -/
inductive Edit (config : Config) (u : StmtId) (start p : Program) : Program → Prop
  | types {q : Program} : p.Retyped start.size q → Edit config u start p q
  | lower {op : BinaryOp} {lhs rhs : StmtId} : p.instrAt u = .binary op lhs rhs →
      (op.lowering? config).isSome = true →
      Edit config u start p (p.rewrite u (.binary .div lhs rhs))
  | before {d : StmtId} {i : Instr} (t : ElementType) : d < p.size →
      Swaps d p.size (p.instrAt u) i →
      ((p.instrAt u).value?.isSome = true → p.size = start.size) →
      (ElementType.narrows t (start.found p d) = true → start.Reports p u t d) →
      ¬ start.Coerces config u t d →
      Edit config u start p ((p.splice .before u d t).rewrite u i)
  | after {d : StmtId} {i : Instr} (t : ElementType) : d < p.size → d < start.size →
      Swaps d p.size (p.instrAt u) i → (p.instrAt u).value? = none → start.Coerces config u t d →
      Edit config u start p ((p.splice .after d d t).rewrite u i)

/-- What the rule of `u` does on its way from `start`, one after the other. -/
abbrev Edits (config : Config) (u : StmtId) (start : Program) : Program → Program → Prop :=
  Relation.ReflTransGen (Edit config u start)

/-- What has an operand that a rule replaces exists. -/
theorem lt_size_of_swaps {o e : StmtId} (h : Swaps o e (p.instrAt u) i) : u < p.size := by
  apply lt_size_of_instrAt_ne
  intro halloca
  rw [halloca] at h
  cases h

namespace Edit

variable {config : Config} {start : Program}

theorem coherent (h : Edit config u start p q) (hp : p.Coherent) : q.Coherent := by
  cases h with
  | types htypes => exact htypes.coherent hp
  | lower => exact hp.rewrite
  | before t hd hswap => exact (hp.splice (lt_size_of_swaps hswap)).rewrite
  | after t hd => exact (hp.splice hd).rewrite

/-- A conversion is inserted, and its reader is pointed at it. -/
private theorem extends_splice_rewrite {side : Side} {anchor : StmtId} (hp : p.Coherent)
    (ha : anchor < p.size) (hswap : Swaps d p.size (p.instrAt u) i) :
    p.Extends ((p.splice side anchor d t).rewrite u i) := by
  have hu := lt_size_of_swaps hswap
  have hu' : u < (p.splice side anchor d t).size := size_splice ▸ Nat.lt_succ_of_lt hu
  have hredirect : Redirected (fun _ _ => True) ((p.splice side anchor d t).instrAt u) i := by
    rw [instrAt_splice_of_lt hu]
    exact hswap.redirected
  exact (hp.extends_splice side d t ha).trans ((hp.splice ha).extends_rewrite hu' hredirect)

theorem extension (h : Edit config u start p q) (hp : p.Coherent) : p.Extends q := by
  cases h with
  | types htypes => exact htypes.extends' hp
  | @lower op lhs rhs hi hlow =>
    have hu : u < p.size := lt_size_of_instrAt_ne (by rw [hi]; simp)
    -- only the divisions are lowered
    have hdiv : op = .floorDiv ∨ op = .trueDiv := by
      cases op <;> first | exact .inl rfl | exact .inr rfl | cases hlow
    have hredirect : Redirected (fun _ _ => True) (p.instrAt u) (.binary .div lhs rhs) := by
      rw [hi]
      exact .binary (.inr ⟨hdiv, rfl⟩) trivial trivial
    exact hp.extends_rewrite hu hredirect
  | before t hd hswap => exact extends_splice_rewrite hp (lt_size_of_swaps hswap) hswap
  | after t hd _ hswap => exact extends_splice_rewrite hp hd hswap

end Edit

namespace Edits

variable {config : Config} {start : Program}

theorem coherent (h : Edits config u start p q) (hp : p.Coherent) : q.Coherent := by
  induction h with
  | refl => exact hp
  | tail _ hedit ih => exact hedit.coherent ih

theorem extension (h : Edits config u start p q) (hp : p.Coherent) : p.Extends q := by
  induction h with
  | refl => exact .refl hp
  | tail hedits hedit ih => exact ih.trans (hedit.extension (coherent hedits hp))

end Edits

end Program

end TensorKernel
