import TensorKernel.ElementType
import TensorKernel.Fault

/-!
# The storage tree

Tensors live in a tree of storage nodes. A leaf (`place`) holds elements of one
type; an inner node says by how many indices its children are addressed, zero
meaning that it does not say. The type checker asks a node for its element
type and its parent, and a parent for its kind and index arity.

The tree is kept as an array of nodes that only grows: node 0 is the root, and
`insert` is the one operation that adds a node, entering it in the child list
of its parent and appending it. Parent links and child lists therefore tell the
same story, and a parent is always older than its children.
-/

namespace TensorKernel

/-- What kind of container a storage node is. -/
inductive NodeKind where
  | root | dense | dynamic | pointer | bitmasked | hash | place
  deriving DecidableEq

namespace NodeKind

def all : List NodeKind := [root, dense, dynamic, pointer, bitmasked, hash, place]

def name : NodeKind → String
  | root => "root"
  | dense => "dense"
  | dynamic => "dynamic"
  | pointer => "pointer"
  | bitmasked => "bitmasked"
  | hash => "hash"
  | place => "place"

def ofName? (s : String) : Option NodeKind := all.find? (·.name == s)

@[simp] theorem ofName?_name (k : NodeKind) : ofName? k.name = some k := by cases k <;> rfl

end NodeKind

/-- One node of the storage tree. -/
structure StorageNode where
  kind : NodeKind
  elem : ElementType
  parent : Option NodeId
  /-- How many indices address a child; 0 if the node does not say. -/
  arity : Nat
  children : List NodeId
  deriving DecidableEq

/-- The nodes of a storage tree, by number. -/
structure Storage where
  nodes : Array StorageNode
  deriving DecidableEq

namespace Storage

def root : NodeId := 0

/-- The tree that has only its root. -/
def empty : Storage := ⟨#[⟨.root, .unknown, none, 0, []⟩]⟩

/-- The number of nodes, and so the number of the next node. -/
def size (t : Storage) : Nat := t.nodes.size

def node (t : Storage) (id : NodeId) : Except Fault StorageNode :=
  match t.nodes[id]? with
  | some n => .ok n
  | none => .error (.noNode id)

theorem node_eq_ok_iff {t : Storage} {id : NodeId} {n : StorageNode} :
    t.node id = .ok n ↔ t.nodes[id]? = some n := by
  unfold node; split <;> simp_all

/-! ### Growing the tree -/

/-- Adds a node below `parent`, as its last child. -/
def insert (t : Storage) (parent : NodeId) (kind : NodeKind) (elem : ElementType) (arity : Nat) :
    Except Fault (Storage × NodeId) := do
  let above ← t.node parent
  let id := t.size
  let linked := t.nodes.setIfInBounds parent { above with children := above.children ++ [id] }
  return (⟨linked.push ⟨kind, elem, some parent, arity, []⟩⟩, id)

/-- **A new node is the last one**, and of the others only its parent changes, by
one more child. -/
theorem insert_eq_ok_iff {t grown : Storage} {parent id : NodeId} {kind : NodeKind}
    {elem : ElementType} {arity : Nat} :
    t.insert parent kind elem arity = .ok (grown, id) ↔
      ∃ above, t.nodes[parent]? = some above ∧ id = t.size ∧
        grown.nodes =
          (t.nodes.setIfInBounds parent { above with children := above.children ++ [id] }).push
            ⟨kind, elem, some parent, arity, []⟩ := by
  cases hp : t.nodes[parent]? with
  | none => simp [insert, node, hp, bind, Except.bind]
  | some above =>
    obtain ⟨nodes⟩ := grown
    simp only [insert, node, hp, bind, Except.bind, pure, Except.pure]
    constructor
    · rintro ⟨⟩
      exact ⟨above, rfl, rfl, rfl⟩
    · rintro ⟨_, ⟨⟩, rfl, rfl⟩
      rfl

/-- Adds an inner node whose children take `arity` indices. -/
def child (t : Storage) (parent : NodeId) (kind : NodeKind) (arity : Nat) :
    Except Fault (Storage × NodeId) :=
  t.insert parent kind .unknown arity

def dense (t : Storage) (parent : NodeId) (arity : Nat) : Except Fault (Storage × NodeId) :=
  t.child parent .dense arity

/-- Adds a leaf that holds elements of type `elem`. -/
def place (t : Storage) (parent : NodeId) (elem : ElementType) : Except Fault (Storage × NodeId) :=
  t.insert parent .place elem 0

/-- One growth step of a storage tree. -/
inductive Growth where
  | child (parent : NodeId) (kind : NodeKind) (arity : Nat)
  | dense (parent : NodeId) (arity : Nat)
  | place (parent : NodeId) (elem : ElementType)
  deriving DecidableEq

def grow (t : Storage) : Growth → Except Fault (Storage × NodeId)
  | .child parent kind arity => t.child parent kind arity
  | .dense parent arity => t.dense parent arity
  | .place parent elem => t.place parent elem

/-- Applies growth steps in order; the second component lists the numbers of
the nodes they added. -/
def growAll (t : Storage) : List Growth → Except Fault (Storage × List NodeId)
  | [] => .ok (t, [])
  | g :: rest => do
    let (t, id) ← t.grow g
    let (t, ids) ← t.growAll rest
    return (t, id :: ids)

@[simp] theorem growAll_nil (t : Storage) : t.growAll [] = .ok (t, []) := rfl

end Storage

end TensorKernel
