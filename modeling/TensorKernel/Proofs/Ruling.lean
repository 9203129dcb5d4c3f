import Mathlib.Logic.Function.Basic
import TensorKernel.Check.MemoryRules
import TensorKernel.Check.ValueRules

/-!
# Typing rules without a program

What a typing rule decides depends on types alone. `ruling` says it: from the types of all
instructions so far (`TypeMap`), a number and an instruction it tells which types are set, how
many conversions are needed, what is warned of and with which error the check stops. No
instruction is inserted and no operand is replaced; a conversion is only counted.

The types are read where the rule reads them. Two rules type their own instruction before they read
all of its operands, and see the new type if the instruction is its own operand:

* a store to a typed place (`Ruling.store`): a store that is its own value reads the type of its
  place, whatever type it had before. It needs no conversion then, and nothing is lost;
* a global pointer (`Ruling.globalPtr`): an index that is the pointer itself has the element type of
  the first node when it is checked.

What a rule has set stays set if it finds an error afterwards.
-/

namespace TensorKernel

/-- The type of every instruction. -/
abbrev TypeMap := StmtId → VectorType

/-- What a typing rule decides. -/
structure Ruling where
  /-- The types that are set, in order. -/
  sets : List (StmtId × VectorType) := []
  /-- How many conversions are needed. -/
  casts : Nat := 0
  /-- What is warned of. -/
  losses : List PrecisionLoss := []
  /-- Why the check stops, if it does. -/
  error : Option TypeError := none

namespace Ruling

/-- The types after those that are set. -/
def typed (τ : TypeMap) : List (StmtId × VectorType) → TypeMap
  | [] => τ
  | (x, t) :: rest => typed (Function.update τ x t) rest

/-- How the rule of an instruction ends that has found this error, or none. -/
def answer (id : StmtId) : Option TypeError → Except Fatal Unit
  | none => .ok ()
  | some error => .error ⟨id, error⟩

theorem answer_eq_ok_iff {id : StmtId} {error : Option TypeError} :
    answer id error = .ok () ↔ error = none := by
  cases error <;> simp [answer]

theorem answer_eq_error_iff {id : StmtId} {error : Option TypeError} {fatal : Fatal} :
    answer id error = .error fatal ↔ ∃ e, error = some e ∧ fatal = ⟨id, e⟩ := by
  cases error <;> simp [answer, eq_comm]

/-- How the rule of an instruction ends. -/
def verdict (r : Ruling) (id : StmtId) : Except Fatal Unit := answer id r.error

def refuse (error : TypeError) : Ruling := { error := some error }

def set (id : StmtId) (t : VectorType) : Ruling := { sets := [(id, t)] }

/-- A conversion that may lose precision: an error if it is a narrowing and those are denied, a
warning otherwise. What the place holds is never denied, so an atomic operation that widens its
value is warned of under either policy. -/
def report (config : Config) (loss : PrecisionLoss) : Ruling :=
  if ElementType.narrows loss.target loss.value ∧ config.narrowing = .deny then
    refuse (.precisionLoss loss)
  else { losses := [loss] }

end Ruling

/-- How many conversions bring an element type to another one. -/
def ElementType.castsTo (elem target : ElementType) : Nat := if elem = target then 0 else 1

/-- The element type that an operand has when the operator is lowered. -/
def BinaryOp.lowered (config : Config) (op : BinaryOp) (elem : ElementType) : ElementType :=
  match op.lowering? config with
  | some (target, accepts) => if accepts elem then elem else target
  | none => elem

/-- How many conversions the lowering of the operator takes for an operand. -/
def BinaryOp.loweringCasts (config : Config) (op : BinaryOp) (elem : ElementType) : Nat :=
  match op.lowering? config with
  | some (_, accepts) => if accepts elem then 0 else 1
  | none => 0

/-- The element type at which a binary operator computes. -/
def BinaryOp.common (config : Config) (op : BinaryOp) (lhs rhs : ElementType) : ElementType :=
  ElementType.promote (op.lowered config lhs) (op.lowered config rhs)

/-- How many conversions bring an operand of the operator to the element type it computes at. -/
def BinaryOp.operandCasts (config : Config) (op : BinaryOp) (elem common : ElementType) : Nat :=
  op.loweringCasts config elem + (op.lowered config elem).castsTo common

namespace Ruling

variable (config : Config) (τ : TypeMap) (id : StmtId)

/-! ### Values -/

def unary (op : UnaryOp) (operand : StmtId) : Ruling :=
  if op.requiresReal && !(τ operand).elem.isReal then refuse (.realOnly op (τ operand).elem)
  else set id (op.resultType (τ operand))

def binary (op : BinaryOp) (lhs rhs : StmtId) : Ruling :=
  let l := τ lhs
  let r := τ rhs
  if l.isUnknown && r.isUnknown then refuse (.ambiguousOperands op)
  else
    let common := op.common config l.elem r.elem
    let casts := op.operandCasts config l.elem common + op.operandCasts config r.elem common
    if l.width ≠ r.width ∨ common = .unknown then
      { casts, error := some (.operandMismatch ⟨l.width, common⟩ ⟨r.width, common⟩) }
    else if op.isBitwise && !common.isIntegral then
      { casts, error := some (.bitwiseNonIntegral op common) }
    else { casts, sets := [(id, op.resultType ⟨l.width, common⟩)] }

def ternary (op : TernaryOp) (cond onTrue onFalse : StmtId) : Ruling :=
  let c := τ cond
  let t := τ onTrue
  let f := τ onFalse
  if op = .ifte then refuse (.unsupportedTernary op)
  else if c.elem ≠ .i32 then refuse (.selectCondition c.elem)
  else if c.width ≠ t.width ∨ t.width ≠ f.width then refuse (.selectWidth c.width t.width f.width)
  else
    let common := ElementType.promote t.elem f.elem
    { casts := t.elem.castsTo common + f.elem.castsTo common, sets := [(id, ⟨c.width, common⟩)] }

def shuffle : List Lane → Ruling
  | [] => refuse .emptyShuffle
  | first :: _ => set id ⟨(τ id).width, (τ first.stmt).elem⟩

def assumeInRange (input base : StmtId) : Ruling :=
  if τ input ≠ τ base then refuse (.rangeAssumptionMismatch (τ input) (τ base))
  else set id (τ input)

/-! ### Local slots and global memory -/

def localLoad (slot : StmtId) : Ruling :=
  if (τ id).width ≠ 1 then refuse (.nonScalar .localLoad (τ id).width) else set id (τ slot)

/-- The value of a store to a typed place: it is converted to the element type of the place, and a
conversion that narrows is reported. The store has the type of its place by then, so a store that is
its own value reads the type of its place: it is not converted, and nothing is reported. -/
def store (access : Access) (place : VectorType) (value : StmtId) : Ruling :=
  let elem := (Function.update τ id place value).elem
  let reported :=
    if ElementType.narrows place.elem elem then report config ⟨access, place.elem, elem⟩ else {}
  { reported with sets := [(id, place)], casts := elem.castsTo place.elem }

def localStore (slot value : StmtId) : Ruling :=
  if (τ slot).isUnknown then { sets := [(slot, τ value), (id, τ value)] }
  else store config τ id .localStore (τ slot) value

def globalStore (ptr value : StmtId) : Ruling := store config τ id .globalStore (τ ptr) value

def atomic (dest value : StmtId) : Ruling :=
  let target := (τ dest).elem
  let elem := (τ value).elem
  if (τ id).width ≠ 1 then refuse (.nonScalar .atomic (τ id).width)
  else if elem = target then set id (.scalar target)
  else
    let reported := report config ⟨.atomic, target, elem⟩
    { reported with
      sets := [(id, .scalar target)], casts := if reported.error.isSome then 0 else 1 }

end Ruling

/-! ### Storage -/

namespace Storage

/-- The node of a number; a number that refers to nothing is read as an untyped root. -/
def nodeAt (t : Storage) (id : NodeId) : StorageNode :=
  (t.nodes[id]?).getD ⟨.root, .unknown, none, 0, []⟩

/-- What is wrong with addressing a node by `count` indices. -/
def arityError (t : Storage) (count : Nat) (node : NodeId) : Option TypeError :=
  match (t.nodeAt node).parent with
  | none => none
  | some parent =>
    let above := t.nodeAt parent
    if above.arity ≠ 0 ∧ above.arity ≠ count then
      some (.indexArity above.kind above.arity count)
    else none

end Storage

/-- What is wrong with an index into a pointer of `lanes` lanes. -/
def VectorType.indexError (lanes position : Nat) (t : VectorType) : Option TypeError :=
  if !t.elem.isIntegral then some (.nonIntegralIndex position t.elem)
  else if t.width ≠ lanes then some (.indexWidth position t.width lanes)
  else none

/-- An index with which nothing is wrong. -/
theorem VectorType.indexError_eq_none_iff {t : VectorType} {lanes position : Nat} :
    t.indexError lanes position = none ↔ t.elem.isIntegral = true ∧ t.width = lanes := by
  unfold indexError
  cases t.elem.isIntegral with
  | false => simp
  | true => by_cases hwidth : t.width = lanes <;> simp [hwidth]

namespace Ruling

/-- What is wrong with the first bad index, if there is one. -/
def indexErrors (τ : TypeMap) (lanes : Nat) (indices : List StmtId) : Option TypeError :=
  indices.zipIdx.findSome? fun index => (τ index.1).indexError lanes index.2

private theorem findSome?_congr {α β : Type} {f g : α → Option β} {l : List α}
    (h : ∀ x ∈ l, f x = g x) : l.findSome? f = l.findSome? g := by
  induction l with
  | nil => rfl
  | cons x l ih =>
    rw [List.findSome?_cons, List.findSome?_cons, h x List.mem_cons_self,
      ih fun y hy => h y (List.mem_cons_of_mem _ hy)]

theorem indexErrors_congr {τ τ' : TypeMap} {lanes : Nat} {indices : List StmtId}
    (h : ∀ x ∈ indices, τ x = τ' x) :
    indexErrors τ lanes indices = indexErrors τ' lanes indices := by
  refine findSome?_congr ?_
  intro index hindex
  rw [h index.1 (List.fst_mem_of_mem_zipIdx hindex)]

theorem indexErrors_eq_none_iff {τ : TypeMap} {lanes : Nat} {indices : List StmtId} :
    indexErrors τ lanes indices = none ↔
      ∀ x ∈ indices, (τ x).elem.isIntegral = true ∧ (τ x).width = lanes := by
  unfold indexErrors
  rw [List.findSome?_eq_none_iff]
  constructor
  · intro h x hx
    obtain ⟨position, hposition⟩ := List.mem_iff_getElem?.1 hx
    exact VectorType.indexError_eq_none_iff.1
      (h _ (List.mk_mem_zipIdx_iff_getElem?.2 hposition))
  · intro h index hindex
    exact VectorType.indexError_eq_none_iff.2 (h _ (List.fst_mem_of_mem_zipIdx hindex))

/-- The first bad index, with its position. -/
theorem indexErrors_append {τ : TypeMap} {lanes : Nat} {front back : List StmtId} {x : StmtId}
    {error : TypeError}
    (hfront : ∀ y ∈ front, (τ y).elem.isIntegral = true ∧ (τ y).width = lanes)
    (hx : (τ x).indexError lanes front.length = some error) :
    indexErrors τ lanes (front ++ x :: back) = some error := by
  have hnone := indexErrors_eq_none_iff.2 hfront
  unfold indexErrors at hnone ⊢
  rw [List.zipIdx_append, List.findSome?_append, hnone, List.zipIdx_cons, List.findSome?_cons,
    Nat.zero_add, hx]
  rfl

variable (τ : TypeMap) (id : StmtId)

/-- All nodes are looked at before any index, and the first thing that is wrong counts. The pointer
has its element type by then, also where it is an index of its own. -/
def globalPtr (storage : Storage) (nodes : List NodeId) (indices : List StmtId) : Ruling :=
  match nodes with
  | [] => refuse .noStorageNodes
  | first :: _ =>
    let sets := [(id, ⟨(τ id).width, (storage.nodeAt first).elem⟩)]
    { sets,
      error :=
        (nodes.findSome? (storage.arityError indices.length)).or
          (indexErrors (typed τ sets) nodes.length indices) }

/-! ### Arguments -/

def argLoad (signature : Signature) (arg : Nat) : Ruling :=
  match signature.slot? arg with
  | none => refuse (.argOutOfRange arg signature.size)
  | some slot =>
    if slot.isReturn then refuse (.loadFromReturnSlot arg) else set id (.scalar slot.elem)

def argStore (signature : Signature) (arg : Nat) (value : StmtId) : Ruling :=
  match signature.slot? arg with
  | none => refuse (.argOutOfRange arg signature.size)
  | some slot =>
    if !slot.isReturn then refuse (.storeToParameter arg)
    else if (τ value).elem ≠ slot.elem then
      refuse (.returnTypeMismatch arg slot.elem (τ value).elem)
    else set id (.scalar slot.elem)

def externalPtr : List StmtId → Ruling
  | [] => refuse .noBasePointers
  | first :: rest => set id ⟨(first :: rest).length, (τ first).elem⟩

/-- The constants among the bounds of a loop are typed as loop indices. -/
def rangeFor (isConst : StmtId → Bool) (first last : StmtId) : Ruling :=
  { sets := ([first, last].filter isConst).map fun bound => (bound, .scalar .i32) }

end Ruling

/-- **The typing rule of an instruction**, from types alone. -/
def ruling (ctx : CheckContext) (isConst : StmtId → Bool) (τ : TypeMap) (id : StmtId) :
    Instr → Ruling
  | .alloca | .const _ | .branch _ _ _ | .structFor _ _ | .whileLoop _ | .offloaded _ _ => {}
  | .rangeFor first last _ => .rangeFor isConst first last
  | .localLoad slot => .localLoad τ id slot
  | .localStore slot value => .localStore ctx.config τ id slot value
  | .globalLoad ptr => .set id (τ ptr)
  | .globalStore ptr value => .globalStore ctx.config τ id ptr value
  | .atomic _ dest value => .atomic ctx.config τ id dest value
  | .globalPtr nodes indices => .globalPtr τ id ctx.storage nodes indices
  | .storageOp _ _ _ _ | .loopIndex _ _ => .set id (.scalar .i32)
  | .unary op operand => .unary τ id op operand
  | .binary op lhs rhs => .binary ctx.config τ id op lhs rhs
  | .ternary op cond onTrue onFalse => .ternary τ id op cond onTrue onFalse
  | .shuffle lanes => .shuffle τ id lanes
  | .assumeInRange input base _ _ => .assumeInRange τ id input base
  | .argLoad arg => .argLoad id ctx.signature arg
  | .argStore arg value => .argStore τ id ctx.signature arg value
  | .externalPtr bases _ => .externalPtr τ id bases
  | .childPtr _ _ _ outputNode => .set id (.scalar (ctx.storage.nodeAt outputNode).elem)

end TensorKernel
