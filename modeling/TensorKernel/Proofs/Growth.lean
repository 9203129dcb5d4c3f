import Mathlib.Data.List.Count
import Mathlib.Logic.Relation
import TensorKernel.Proofs.MemoryRules

/-!
# Storage trees that were grown

A storage tree says twice which node is below which: every node names its parent, and every node
lists its children. `Arranged` says that the two agree, and that a parent is older than its
children, so that every way up ends at the root. The tree with only a root is arranged, and
`Arranged.insert` says that one node more keeps it so; what holds of any run of growth steps
(`growAll_arranges`) is an induction over the steps.

A growth step either succeeds or leaves nothing to speak of. That a step below a node that does not
exist leaves the tree alone can be said only where the tree is changed in place: `attach` does it in
the order in which a node is entered in the list of its parent and then appended, and agrees with
`insert` (`attach_eq`).
-/

namespace TensorKernel.Storage

open Relation (ReflTransGen)

/-! ### Growth steps -/

namespace Growth

/-- The node below which a step grows the tree. -/
def parent : Growth → NodeId
  | child parent _ _ => parent
  | dense parent _ => parent
  | place parent _ => parent

/-- The node that a step adds. -/
def leaf : Growth → StorageNode
  | child parent kind arity => ⟨kind, .unknown, some parent, arity, []⟩
  | dense parent arity => ⟨.dense, .unknown, some parent, arity, []⟩
  | place parent elem => ⟨.place, elem, some parent, 0, []⟩

end Growth

variable {t grown : Storage} {id up k : NodeId} {kind : NodeKind} {elem : ElementType}
  {arity : Nat} {g : Growth} {steps : List Growth}

theorem grow_eq_insert : t.grow g = t.insert g.parent g.leaf.kind g.leaf.elem g.leaf.arity := by
  cases g <;> rfl

theorem node_of_size_le (h : t.size ≤ k) : t.node k = .error (.noNode k) := by
  rw [node, Array.getElem?_eq_none h]

theorem nodeAt_of_size_le (h : t.size ≤ k) : t.nodeAt k = ⟨.root, .unknown, none, 0, []⟩ := by
  rw [nodeAt, Array.getElem?_eq_none h, Option.getD_none]

/-- Only a node that exists names a parent. -/
theorem lt_size_of_parent (h : (t.nodeAt k).parent = some up) : k < t.size := by
  rcases Nat.lt_or_ge k t.size with hlt | hge
  · exact hlt
  · rw [nodeAt_of_size_le hge] at h
    cases h

/-! ### Growing in place -/

/-- Enters a node in the list of its parent, which has to exist. -/
def link (up child : NodeId) : ExceptT Fault (StateM Storage) Unit := do
  let t ← get
  match t.node up with
  | .error fault => throw fault
  | .ok above =>
    set (⟨t.nodes.setIfInBounds up { above with children := above.children ++ [child] }⟩ : Storage)

/-- Adds a node in place: it is entered in the list of its parent first. -/
def attach (up : NodeId) (kind : NodeKind) (elem : ElementType) (arity : Nat) :
    ExceptT Fault (StateM Storage) NodeId := do
  let id := (← get).size
  link up id
  modify fun t => ⟨t.nodes.push ⟨kind, elem, some up, arity, []⟩⟩
  return id

/-- A growth step in place. -/
def Growth.inPlace (g : Growth) : ExceptT Fault (StateM Storage) NodeId :=
  attach g.parent g.leaf.kind g.leaf.elem g.leaf.arity

private theorem run_bind {α β : Type} (step : ExceptT Fault (StateM Storage) α)
    (next : α → ExceptT Fault (StateM Storage) β) (t : Storage) :
    (step >>= next).run.run t =
      match step.run.run t with
      | (.error fault, left) => (.error fault, left)
      | (.ok a, left) => (next a).run.run left := by
  rw [ExceptT.run_bind, StateT.run_bind]
  rcases step.run.run t with ⟨_ | a, left⟩ <;> rfl

theorem link_eq (t : Storage) (up child : NodeId) :
    (link up child).run.run t =
      match t.node up with
      | .error fault => (.error fault, t)
      | .ok above =>
        (.ok (), ⟨t.nodes.setIfInBounds up
          { above with children := above.children ++ [child] }⟩) := by
  unfold link
  rw [run_bind]
  -- one look-up decides: without the node above nothing is written
  change StateT.run (ExceptT.run (match t.node up with
    | .error fault => throw fault
    | .ok above => set _)) t = _
  cases t.node up <;> rfl

/-- **Growing in place** is growing; where that is not possible, the tree is as it was. -/
theorem attach_eq (t : Storage) (up : NodeId) (kind : NodeKind) (elem : ElementType)
    (arity : Nat) :
    (attach up kind elem arity).run.run t =
      match t.insert up kind elem arity with
      | .ok (grown, id) => (.ok id, grown)
      | .error fault => (.error fault, t) := by
  unfold attach
  rw [run_bind]
  change StateT.run (ExceptT.run (link up t.size >>= _)) t = _
  rw [run_bind, link_eq, insert]
  cases t.node up <;> rfl

theorem inPlace_of_size_le (h : t.size ≤ g.parent) :
    t.grow g = .error (.noNode g.parent) ∧
      g.inPlace.run.run t = (.error (.noNode g.parent), t) := by
  have hinsert : t.insert g.parent g.leaf.kind g.leaf.elem g.leaf.arity =
      .error (.noNode g.parent) := by
    rw [insert, node_of_size_le h]
    rfl
  refine ⟨grow_eq_insert.trans hinsert, ?_⟩
  rw [Growth.inPlace, attach_eq, hinsert]

/-! ### What one node more changes -/

theorem size_insert (h : t.insert up kind elem arity = .ok (grown, id)) :
    grown.size = t.size + 1 := by
  obtain ⟨above, -, -, hnodes⟩ := insert_eq_ok_iff.1 h
  rw [size, hnodes, Array.size_push, Array.size_setIfInBounds, size]

/-- A node can be added below every node that exists. -/
theorem exists_insert (kind : NodeKind) (elem : ElementType) (arity : Nat) (h : up < t.size) :
    ∃ grown, t.insert up kind elem arity = .ok (grown, t.size) := by
  have habove : t.nodes[up]? = some t.nodes[up] := Array.getElem?_eq_getElem h
  exact ⟨_, insert_eq_ok_iff.2 ⟨_, habove, rfl, rfl⟩⟩

/-- **The nodes that were there** are what they were, and where they were; of their children only
the list may have grown. -/
def Keeps (t grown : Storage) : Prop :=
  ∀ k < t.size, (grown.nodeAt k).kind = (t.nodeAt k).kind ∧
    (grown.nodeAt k).elem = (t.nodeAt k).elem ∧
    (grown.nodeAt k).arity = (t.nodeAt k).arity ∧
    (grown.nodeAt k).parent = (t.nodeAt k).parent ∧
    (t.nodeAt k).children <+: (grown.nodeAt k).children

theorem Keeps.refl (t : Storage) : t.Keeps t := fun _ _ => ⟨rfl, rfl, rfl, rfl, List.prefix_rfl⟩

theorem keeps_insert (h : t.insert up kind elem arity = .ok (grown, id)) : t.Keeps grown := by
  intro k hk
  rw [nodeAt_insert h, if_neg (Nat.ne_of_lt hk)]
  split
  · next heq =>
    subst heq
    exact ⟨rfl, rfl, rfl, rfl, List.prefix_append _ _⟩
  · exact Keeps.refl t k hk

/-! ### Parents and children -/

/-- **Parents and children agree**, and a parent is older than its children. -/
structure Arranged (t : Storage) : Prop where
  size_pos : 0 < t.size
  /-- The root alone has no parent. -/
  parent_eq_none_iff : ∀ k < t.size, (t.nodeAt k).parent = none ↔ k = root
  parent_lt : ∀ k up, (t.nodeAt k).parent = some up → up < k
  /-- A node is a child of its parent, once, and of no other node. -/
  count_children : ∀ up k,
    (t.nodeAt up).children.count k = if (t.nodeAt k).parent = some up then 1 else 0
  increasing : ∀ up, (t.nodeAt up).children.Pairwise (· < ·)

theorem arranged_empty : empty.Arranged where
  size_pos := Nat.one_pos
  parent_eq_none_iff k hk := by
    obtain rfl : k = 0 := Nat.lt_one_iff.1 hk
    exact iff_of_true rfl rfl
  parent_lt k up h := by
    obtain rfl : k = 0 := Nat.lt_one_iff.1 (lt_size_of_parent h)
    cases h
  count_children up k := by
    -- there is one node, without a parent and without children
    have hparent : ∀ k, (empty.nodeAt k).parent = none := by rintro (_ | k) <;> rfl
    have hchildren : ∀ up, (empty.nodeAt up).children = [] := by rintro (_ | up) <;> rfl
    rw [hparent, hchildren]
    rfl
  increasing up := by
    have hchildren : (empty.nodeAt up).children = [] := by cases up <;> rfl
    rw [hchildren]
    exact .nil

namespace Arranged

theorem mem_children_iff (ht : t.Arranged) :
    k ∈ (t.nodeAt up).children ↔ (t.nodeAt k).parent = some up := by
  rw [← List.count_pos_iff, ht.count_children]
  split <;> simp_all

/-- **Every way up ends at the root.** -/
theorem reaches_root (ht : t.Arranged) (hk : k < t.size) :
    ReflTransGen (fun k up => (t.nodeAt k).parent = some up) k root := by
  induction k using Nat.strongRecOn with
  | ind k ih =>
    cases hparent : (t.nodeAt k).parent with
    | none => rw [(ht.parent_eq_none_iff k hk).1 hparent]
    | some up =>
      have hlt := ht.parent_lt k up hparent
      exact .head hparent (ih up hlt (Nat.lt_trans hlt hk))

/-- **A node more** keeps the tree arranged: it is the youngest, and so comes last among the
children of its parent. -/
theorem insert (ht : t.Arranged) (h : t.insert up kind elem arity = .ok (grown, id)) :
    grown.Arranged := by
  have hup : up < t.size := lt_size_of_insert h
  -- nothing is below the new node yet, and it is below nothing
  have hfresh : (t.nodeAt t.size).parent = none := by rw [nodeAt_of_size_le (Nat.le_refl _)]
  have hno : ∀ k, (t.nodeAt k).parent ≠ some t.size := fun k hk =>
    Nat.lt_asymm (ht.parent_lt k _ hk) (lt_size_of_parent hk)
  refine ⟨?_, ?_, ?_, ?_, ?_⟩
  · -- one goal for each thing that can go wrong with a tree
    rw [size_insert h]
    exact Nat.succ_pos _
  · intro k hk
    rw [parent_insert h]
    split
    · -- the new node is not the root, and it has a parent
      next heq =>
      subst heq
      exact iff_of_false (Option.some_ne_none _) (Nat.ne_of_gt ht.size_pos)
    · next hne =>
      have hlt : k < t.size + 1 := size_insert h ▸ hk
      exact ht.parent_eq_none_iff k (Nat.lt_of_le_of_ne (Nat.le_of_lt_succ hlt) hne)
  · intro k above habove
    rw [parent_insert h] at habove
    split at habove
    · -- a parent was there before
      next heq =>
      cases habove
      rwa [heq]
    · exact ht.parent_lt k above habove
  · intro above k
    rw [parent_insert h, nodeAt_insert h]
    by_cases hk : k = t.size
    · -- the new node is listed once, by its parent, and nowhere before
      have hnot : (t.nodeAt above).children.count k = 0 := by
        rw [ht.count_children, hk, hfresh, if_neg (by simp)]
      rw [if_pos hk]
      split
      · next heq =>
        rw [if_neg fun hsome => Nat.ne_of_lt hup ((Option.some.inj hsome).trans heq)]
        rfl
      split
      · next heq =>
        rw [List.count_append, ← heq, hnot, hk, List.count_singleton_self, if_pos rfl]
      · next hne =>
        rw [hnot, if_neg fun hsome => hne (Option.some.inj hsome).symm]
    · rw [if_neg hk]
      split
      · -- of the others, the new node lists none, and its parent lists what it listed
        next heq =>
        rw [heq, if_neg (hno k)]
        rfl
      split
      · next heq =>
        rw [List.count_append, List.count_singleton, if_neg (by simpa using Ne.symm hk), heq,
          ht.count_children, Nat.add_zero]
      · exact ht.count_children above k
  · intro above
    rw [nodeAt_insert h]
    split
    · exact .nil
    split
    · -- the number of the new node is larger than all that its parent lists
      refine List.pairwise_append.2 ⟨ht.increasing up, List.pairwise_singleton _ _, ?_⟩
      intro k hk new hnew
      rw [List.mem_singleton.1 hnew]
      exact lt_size_of_parent (ht.mem_children_iff.1 hk)
    · exact ht.increasing above

end Arranged

/-! ### Every run of growth steps -/

theorem growAll_cons_eq_ok {next : Storage} {ids : List NodeId} {rest : List Growth}
    (hgrow : t.grow g = .ok (next, id)) (hrest : next.growAll rest = .ok (grown, ids)) :
    t.growAll (g :: rest) = .ok (grown, id :: ids) := by
  rw [growAll, hgrow, Fault.bind_eq_ok_iff]
  refine ⟨_, rfl, ?_⟩
  rw [Fault.bind_eq_ok_iff]
  exact ⟨_, hrest, rfl⟩

/-- A step below a node that exists. -/
theorem Arranged.grow (ht : t.Arranged) (h : g.parent < t.size) :
    ∃ grown, t.grow g = .ok (grown, t.size) ∧ grown.size = t.size + 1 ∧ grown.Arranged ∧
      t.Keeps grown := by
  obtain ⟨grown, hinsert⟩ := exists_insert g.leaf.kind g.leaf.elem g.leaf.arity h
  exact ⟨grown, grow_eq_insert.trans hinsert, size_insert hinsert, ht.insert hinsert,
    keeps_insert hinsert⟩

/-- **A run of growth steps**, each below a node that exists when its turn comes. -/
theorem Arranged.growAll (ht : t.Arranged) (steps : List Growth)
    (h : ∀ i (hi : i < steps.length), steps[i].parent < t.size + i) :
    ∃ grown, t.growAll steps = .ok (grown, List.range' t.size steps.length) ∧
      grown.size = t.size + steps.length ∧ grown.Arranged := by
  induction steps generalizing t with
  | nil => exact ⟨t, rfl, rfl, ht⟩
  | cons g rest ih =>
    have hfirst : g.parent < t.size := h 0 (Nat.succ_pos _)
    -- the tree after the first node is one node larger, and so is every bound
    obtain ⟨next, hgrow, hsize, hnext, -⟩ := ht.grow hfirst
    obtain ⟨grown, hall, hgrown, harranged⟩ := ih hnext fun i hi => by
      have hparent := h (i + 1) (Nat.succ_lt_succ hi)
      rw [hsize]
      simpa [Nat.add_assoc, Nat.add_comm 1] using hparent
    refine ⟨grown, ?_, ?_, harranged⟩
    · rw [growAll_cons_eq_ok hgrow hall, hsize]
      rfl
    · rw [hgrown, hsize, List.length_cons]
      omega

/-- A run fails where one of its steps does. -/
theorem growAll_append_of_error {ids : List NodeId} {fault : Fault} {rest : List Growth}
    (h : t.growAll steps = .ok (grown, ids)) (hfault : grown.grow g = .error fault) :
    t.growAll (steps ++ g :: rest) = .error fault := by
  induction steps generalizing t ids with
  | nil =>
    cases h
    -- right after what has been grown the refused node comes, and the rest is not looked at
    rw [List.nil_append, growAll, hfault]
    rfl
  | cons first steps ih =>
    obtain ⟨⟨next, id⟩, hgrow, h⟩ := Fault.bind_eq_ok_iff.1 h
    obtain ⟨⟨_, ids'⟩, hall, h⟩ := Fault.bind_eq_ok_iff.1 h
    cases h
    rw [List.cons_append, growAll, hgrow]
    change next.growAll (steps ++ g :: rest) >>= _ = _
    rw [ih hall]
    rfl

/-- **What holds of every storage tree.** Growth steps below nodes that exist succeed, from the tree
with only a root. Each of them returns the number of nodes there were, and leaves kind, element
type, arity and parent of every one of these. In the tree that is reached the root alone has no
parent, and every other node has an older one, so that every way up ends at the root; a node is
listed once by its parent and by no other node, and the children of a node are listed in the order
of their numbers. A step below a node that does not exist, the one to be added included, is refused
with the tree as it was, and so is the run it belongs to. -/
theorem growAll_arranges (h : ∀ i (hi : i < steps.length), steps[i].parent < i + 1) :
    ∃ t, empty.growAll steps = .ok (t, List.range' 1 steps.length) ∧
      t.size = steps.length + 1 ∧
      (∀ i (hi : i < steps.length), ∃ before after,
        empty.growAll (steps.take i) = .ok (before, List.range' 1 i) ∧
        before.size = i + 1 ∧ before.grow steps[i] = .ok (after, before.size) ∧
        before.Keeps after) ∧
      t.Arranged ∧
      (∀ k < t.size, ReflTransGen (fun k up => (t.nodeAt k).parent = some up) k root) ∧
      ∀ g : Growth, t.size ≤ g.parent →
        (∀ rest, empty.growAll (steps ++ g :: rest) = .error (.noNode g.parent)) ∧
        t.grow g = .error (.noNode g.parent) ∧
        g.inPlace.run.run t = (.error (.noNode g.parent), t) := by
  have hsize : empty.size = 1 := rfl
  -- the root is there before the first step, so every parent is one of the nodes so far
  obtain ⟨t, hall, hgrown, ht⟩ := arranged_empty.growAll steps fun i hi => by
    rw [hsize, Nat.add_comm]
    exact h i hi
  refine ⟨t, hall, by rw [hgrown, hsize, Nat.add_comm], ?_, ht, fun k hk => ht.reaches_root hk, ?_⟩
  · intro i hi
    -- the tree before a step is what the steps before it have grown
    have hlength : (steps.take i).length = i := List.length_take_of_le (Nat.le_of_lt hi)
    obtain ⟨before, hbefore, hcount, harranged⟩ :=
      arranged_empty.growAll (steps.take i) fun j hj => by
        rw [List.getElem_take, hsize, Nat.add_comm]
        exact h j _
    rw [hlength, hsize, Nat.add_comm] at hcount
    rw [hlength, hsize] at hbefore
    obtain ⟨after, hgrow, -, -, hkeeps⟩ := harranged.grow (g := steps[i]) (hcount ▸ h i hi)
    exact ⟨before, after, hbefore, hcount, hgrow, hkeeps⟩
  · intro g hg
    -- a node that does not exist refuses a child, wherever the steps go on from there
    obtain ⟨hrefused, hplace⟩ := inPlace_of_size_le hg
    exact ⟨fun rest => growAll_append_of_error hall hrefused, hrefused, hplace⟩

/-- A container and two leaves in it. -/
def containerSteps : List Growth := [.dense root 2, .place 1 .f32, .place 1 .i32]

theorem growAll_arranges_container :
    (∀ i (hi : i < containerSteps.length), containerSteps[i].parent < i + 1) ∧
      ∃ t, empty.growAll containerSteps = .ok (t, [1, 2, 3]) ∧ t.Arranged ∧
        (t.nodeAt 1).children = [2, 3] ∧
        (Growth.place 4 .f32).inPlace.run.run t = (.error (.noNode 4), t) := by
  have hparents : ∀ i (hi : i < containerSteps.length), containerSteps[i].parent < i + 1 := by
    decide
  obtain ⟨t, hall, hsize, -, ht, -, hrefuse⟩ := growAll_arranges hparents
  -- the children of the container, evaluated
  have hchildren : (empty.growAll containerSteps).map (fun made => (made.1.nodeAt 1).children) =
      .ok [2, 3] := by decide +kernel
  rw [hall] at hchildren
  exact ⟨hparents, t, hall, ht, Except.ok.inj hchildren,
    (hrefuse (.place 4 .f32) (Nat.le_of_eq hsize)).2.2⟩

end TensorKernel.Storage
