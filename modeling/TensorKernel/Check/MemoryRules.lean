import TensorKernel.Check.State

/-!
# Typing rules for memory

The rules for local slots, global pointers and stores, atomic operations,
kernel arguments and external pointers. A store brings its value to the type of
the place it stores to; a value that does not fit there is reported.
-/

namespace TensorKernel.Checker

/-- Refuses an instruction that is not one lane wide. -/
def requireScalar (id : StmtId) (access : Access) : Checker Unit := do
  let width := (← typeOf id).width
  if width ≠ 1 then
    stopAt id (.nonScalar access width)

/-! ### Local slots -/

def checkLocalLoad (id slot : StmtId) : Checker Unit := do
  requireScalar id .localLoad
  setType id (← typeOf slot)

/-- A slot that has no type yet takes the type of the value, and nothing is
converted. Any other slot keeps its type; the value is converted to it, and
then the conversion is reported if it is a narrowing. -/
def checkLocalStore (config : Config) (id slot value : StmtId) : Checker Unit := do
  let slotType ← typeOf slot
  if slotType.isUnknown then
    let valueType ← typeOf value
    setType slot valueType
    setType id valueType
  else
    setType id slotType
    let valueElem ← elemOf value
    if valueElem ≠ slotType.elem then
      let cast ← insertCast .before id value slotType.elem
      setInstr id (.localStore slot cast)
    if ElementType.narrows slotType.elem valueElem then
      reportLoss config id ⟨.localStore, slotType.elem, valueElem⟩

/-! ### Global memory -/

/-- The value is converted to the pointer's element type, and then the
conversion is reported if it is a narrowing. -/
def checkGlobalStore (config : Config) (id ptr value : StmtId) : Checker Unit := do
  let ptrType ← typeOf ptr
  setType id ptrType
  let valueElem ← elemOf value
  if valueElem ≠ ptrType.elem then
    let cast ← insertCast .before id value ptrType.elem
    setInstr id (.globalStore ptr cast)
  if ElementType.narrows ptrType.elem valueElem then
    reportLoss config id ⟨.globalStore, ptrType.elem, valueElem⟩

/-- The result is the element that was there before. Every conversion is
reported, a narrowing or not, and it is reported before it is made. -/
def checkAtomic (config : Config) (id : StmtId) (op : AtomicOp) (dest value : StmtId) :
    Checker Unit := do
  requireScalar id .atomic
  let destElem ← elemOf dest
  let valueElem ← elemOf value
  setType id (.scalar destElem)
  if valueElem ≠ destElem then
    reportLoss config id ⟨.atomic, destElem, valueElem⟩
    let cast ← insertCast .before id value destElem
    setInstr id (.atomic op dest cast)

/-- Asks the storage tree something. -/
def ofStorage {α : Type} (answer : Except Fault α) : Checker α := lookUp fun _ => answer

/-- The parent of a node, if it has one and says by how many indices it is
addressed, has to be addressed by that many. -/
def checkArity (storage : Storage) (id : StmtId) (count : Nat) (node : NodeId) :
    Checker Unit := do
  match (← ofStorage (storage.node node)).parent with
  | none => return
  | some parent =>
    let parent ← ofStorage (storage.node parent)
    if parent.arity ≠ 0 ∧ parent.arity ≠ count then
      stopAt id (.indexArity parent.kind parent.arity count)

/-- An index has to be integral and to have one lane for each addressed node. -/
def checkIndex (id : StmtId) (lanes position : Nat) (index : StmtId) : Checker Unit := do
  let type ← typeOf index
  if !type.elem.isIntegral then
    stopAt id (.nonIntegralIndex position type.elem)
  if type.width ≠ lanes then
    stopAt id (.indexWidth position type.width lanes)

/-- A global pointer has the element type of the first node it addresses. All
nodes are looked at before any index. -/
def checkGlobalPtr (storage : Storage) (id : StmtId) (nodes : List NodeId)
    (indices : List StmtId) : Checker Unit := do
  match nodes with
  | [] => stopAt id .noStorageNodes
  | first :: _ =>
    setElem id (← ofStorage (storage.node first)).elem
    nodes.forM (checkArity storage id indices.length)
    indices.zipIdx.forM fun (index, position) => checkIndex id nodes.length position index

/-- The result is typed by the node that the child pointer leads to. -/
def checkChildPtr (storage : Storage) (id : StmtId) (node : NodeId) : Checker Unit := do
  setType id (.scalar (← ofStorage (storage.node node)).elem)

/-! ### Arguments -/

def checkArgLoad (signature : Signature) (id : StmtId) (arg : Nat) : Checker Unit :=
  match signature.slot? arg with
  | none => stopAt id (.argOutOfRange arg signature.size)
  | some slot =>
    if slot.isReturn then stopAt id (.loadFromReturnSlot arg)
    else setType id (.scalar slot.elem)

/-- A value is stored to a return slot as it is, never converted. -/
def checkArgStore (signature : Signature) (id : StmtId) (arg : Nat) (value : StmtId) :
    Checker Unit :=
  match signature.slot? arg with
  | none => stopAt id (.argOutOfRange arg signature.size)
  | some slot => do
    if !slot.isReturn then
      stopAt id (.storeToParameter arg)
    let found ← elemOf value
    if found ≠ slot.elem then
      stopAt id (.returnTypeMismatch arg slot.elem found)
    setType id (.scalar slot.elem)

/-- An external pointer has one lane for each base pointer and is typed like the
first. -/
def checkExternalPtr (id : StmtId) (bases : List StmtId) : Checker Unit :=
  match bases with
  | [] => stopAt id .noBasePointers
  | first :: _ => do setType id ⟨bases.length, ← elemOf first⟩

end TensorKernel.Checker
