import TensorKernel.Program.Builder
import TensorKernel.Proofs.MemoryRules

/-!
# What the rule of global pointers decides

A global pointer names the storage nodes that it addresses and the indices it addresses them by.
Each node asks its parent by how many indices it is addressed, unless it has none or the parent
does not say (`Storage.Admits`), and every index is to be integral and to have one lane for each
node. `checkGlobalPtr_decides` says of the rule that it accepts just that, and which of several
violations it reports: the nodes come before the indices, and of each kind the first one counts.

The pointer is typed before anything is looked at. An index that is the pointer itself is therefore
seen with its new type, and so the indices are judged by their types in the state that is left.
-/

namespace TensorKernel

namespace Storage

variable {t : Storage} {count : Nat} {k parent : NodeId}

/-- A node may be addressed by `count` indices: its parent, if it has one and says by how many its
children are addressed, says just that. -/
def Admits (t : Storage) (count : Nat) (k : NodeId) : Prop :=
  ∀ parent, (t.nodeAt k).parent = some parent → (t.nodeAt parent).arity ≠ 0 →
    (t.nodeAt parent).arity = count

theorem arityError_eq_none_iff : t.arityError count k = none ↔ t.Admits count k := by
  unfold arityError Admits
  cases (t.nodeAt k).parent with
  | none => simp
  | some parent => simp

/-- What is said of a node that may not be addressed this way. -/
theorem arityError_of_ne (hparent : (t.nodeAt k).parent = some parent)
    (hset : (t.nodeAt parent).arity ≠ 0) (hne : (t.nodeAt parent).arity ≠ count) :
    t.arityError count k =
      some (.indexArity (t.nodeAt parent).kind (t.nodeAt parent).arity count) := by
  unfold arityError
  rw [hparent]
  exact if_pos ⟨hset, hne⟩

/-- The first node of a list that may not be addressed. -/
theorem arityError_first {front back : List NodeId} {error : TypeError}
    (hfront : ∀ j ∈ front, t.Admits count j) (hk : t.arityError count k = some error) :
    (front ++ k :: back).findSome? (t.arityError count) = some error := by
  refine List.findSome?_eq_some_iff.2 ⟨front, k, back, rfl, hk, ?_⟩
  intro j hj
  exact arityError_eq_none_iff.2 (hfront j hj)

end Storage

namespace VectorType

variable {type : VectorType} {lanes position : Nat}

theorem indexError_of_not_isIntegral (h : type.elem.isIntegral = false) :
    type.indexError lanes position = some (.nonIntegralIndex position type.elem) := by
  rw [indexError, h]
  rfl

theorem indexError_of_width_ne (h : type.elem.isIntegral = true) (hwidth : type.width ≠ lanes) :
    type.indexError lanes position = some (.indexWidth position type.width lanes) := by
  rw [indexError, h]
  exact if_pos hwidth

end VectorType

namespace Checker

variable {u : StmtId} {s : CheckState} {t : Storage} {nodes : List NodeId} {indices : List StmtId}

/-- **The rule of global pointers accepts exactly the well-formed accesses, and reports the first
violation.** It comes to an end. A list of nodes gives the pointer the element type of its first
node, and changes nothing else. The access passes exactly if there is a node, every node may be
addressed by so many indices, and every index is integral with one lane for each node. Otherwise an
empty list is reported, or else the first node that may not be addressed by so many indices,
whatever these are, or else the first index that is wrong: that it is not integral, or, if it is,
that its width is not the number of nodes. -/
theorem checkGlobalPtr_decides (hu : u < s.program.size)
    (hindices : ∀ x ∈ indices, x < s.program.size) (ht : t.Answers nodes) :
    ∃ answer left, runOn (checkGlobalPtr t u nodes indices) s = .ok (answer, left) ∧
      (∀ first ∈ nodes.head?, left =
        { s with
          program := s.program.retype u ⟨(s.program.typeAt u).width, (t.nodeAt first).elem⟩ }) ∧
      (answer = .ok () ↔ nodes ≠ [] ∧ (∀ k ∈ nodes, t.Admits indices.length k) ∧
        ∀ x ∈ indices, (left.program.typeAt x).elem.isIntegral = true ∧
          (left.program.typeAt x).width = nodes.length) ∧
      (nodes = [] → answer = .error ⟨u, .noStorageNodes⟩ ∧ left = s) ∧
      (∀ front k back parent, nodes = front ++ k :: back →
        (∀ j ∈ front, t.Admits indices.length j) → (t.nodeAt k).parent = some parent →
        (t.nodeAt parent).arity ≠ 0 → (t.nodeAt parent).arity ≠ indices.length →
        answer = .error ⟨u, .indexArity (t.nodeAt parent).kind (t.nodeAt parent).arity
          indices.length⟩) ∧
      (nodes ≠ [] → (∀ k ∈ nodes, t.Admits indices.length k) →
        ∀ front x back, indices = front ++ x :: back →
        (∀ y ∈ front, (left.program.typeAt y).elem.isIntegral = true ∧
          (left.program.typeAt y).width = nodes.length) →
        ((left.program.typeAt x).elem.isIntegral = false →
          answer = .error ⟨u, .nonIntegralIndex front.length (left.program.typeAt x).elem⟩) ∧
        ((left.program.typeAt x).elem.isIntegral = true →
          (left.program.typeAt x).width ≠ nodes.length →
          answer = .error ⟨u, .indexWidth front.length (left.program.typeAt x).width
            nodes.length⟩)) := by
  cases nodes with
  | nil =>
    refine ⟨.error ⟨u, .noStorageNodes⟩, s, runOn_stopAt _ _ _, nofun, ?_, fun _ => ⟨rfl, rfl⟩, ?_,
      fun h => (h rfl).elim⟩
    · -- without a node nothing passes, and there is no node that could be at fault
      exact iff_of_false nofun fun h => h.1 rfl
    · intro front k back _ h
      exact (List.append_ne_nil_of_right_ne_nil front (List.cons_ne_nil k back) h.symm).elim
  | cons first rest =>
    obtain ⟨answer, left, hrun, hleft, hanswer⟩ :=
      (checkGlobalPtr_ends hu hindices (.inr ht)).exists_runOn
    refine ⟨answer, left, hrun, ?_, ?_, nofun, ?_, ?_⟩
    · rintro _ ⟨⟩
      exact hleft
    · -- it passes if neither the nodes nor the indices are found to be wrong
      rw [hanswer, Ruling.answer_eq_ok_iff, Option.or_eq_none_iff, List.findSome?_eq_none_iff,
        Ruling.indexErrors_eq_none_iff]
      simp only [Storage.arityError_eq_none_iff, ne_eq, reduceCtorEq, not_false_eq_true, true_and]
    · intro front k back parent hnodes hfront hparent hset hne
      -- the first node that does not fit is found before any index is looked at
      rw [hanswer, hnodes,
        Storage.arityError_first hfront (Storage.arityError_of_ne hparent hset hne)]
      rfl
    · intro _ hadmits front x back hlist hfront
      -- all nodes pass, so it is the indices that decide
      have hnodes : (first :: rest).findSome? (t.arityError indices.length) = none :=
        List.findSome?_eq_none_iff.2 fun k hk => Storage.arityError_eq_none_iff.2 (hadmits k hk)
      have hfirst : ∀ error,
          (left.program.typeAt x).indexError (first :: rest).length front.length = some error →
          answer = .error ⟨u, error⟩ := by
        intro error herror
        rw [hanswer, hnodes, Option.none_or, hlist, Ruling.indexErrors_append hfront herror]
        rfl
      constructor
      · intro hint
        exact hfirst _ (VectorType.indexError_of_not_isIntegral hint)
      · intro hint hwidth
        exact hfirst _ (VectorType.indexError_of_width_ne hint hwidth)

/-- Three leaves, one below the root and the others below inner nodes that take one index and
two. -/
def mixedTree : List Storage.Growth :=
  [.place 0 .i32, .dense 0 1, .dense 0 2, .place 2 .f32, .place 3 .f64]

/-- A pointer to all three, of which the last may not be addressed by the one index, a real
number. -/
def mixedSteps : List Step := [.emit (.const (.f32 0)), .emit (.globalPtr [1, 4, 5] [0])]

theorem checkGlobalPtr_decides_mixed :
    ∃ t ids p made left, Storage.empty.growAll mixedTree = .ok (t, ids) ∧
      Program.build mixedSteps = .ok (p, made) ∧
      runOn (checkGlobalPtr t 1 [1, 4, 5] [0]) { program := p } =
        .ok (.error ⟨1, .indexArity .dense 2 1⟩, left) ∧
      left = { program := p.retype 1 (.scalar .i32) } := by
  -- the tree and the program, evaluated once; the rest is the general theorem
  have hgrown : (Storage.empty.growAll mixedTree).map
      (fun grown => (grown.1.size, [0, 1, 2, 3, 4, 5].map grown.1.nodeAt)) =
      .ok (6, [⟨.root, .unknown, none, 0, [1, 2, 3]⟩, ⟨.place, .i32, some 0, 0, []⟩,
        ⟨.dense, .unknown, some 0, 1, [4]⟩, ⟨.dense, .unknown, some 0, 2, [5]⟩,
        ⟨.place, .f32, some 2, 0, []⟩, ⟨.place, .f64, some 3, 0, []⟩]) := by decide +kernel
  have hbuilt : (Program.build mixedSteps).map (fun built => (built.1.size, built.1.typeAt 1)) =
      .ok (2, .unknown) := by decide +kernel
  cases hgrow : Storage.empty.growAll mixedTree with
  | error fault => rw [hgrow] at hgrown; cases hgrown
  | ok grown =>
    obtain ⟨t, ids⟩ := grown
    cases hbuild : Program.build mixedSteps with
    | error fault => rw [hbuild] at hbuilt; cases hbuilt
    | ok built =>
      obtain ⟨p, made⟩ := built
      rw [hgrow] at hgrown
      rw [hbuild] at hbuilt
      obtain ⟨hsize, h₀, h₁, h₂, h₃, h₄, h₅⟩ : t.size = 6 ∧ _ ∧ _ ∧ _ ∧ _ ∧ _ ∧ _ := by
        simpa using Except.ok.inj hgrown
      obtain ⟨hcount, htype⟩ : p.size = 2 ∧ p.typeAt 1 = .unknown := by
        simpa using Except.ok.inj hbuilt
      have hnodes : ∀ k ∈ [1, 4, 5], k < t.size := by rw [hsize]; decide
      have hindices : ∀ x ∈ [0], x < p.size := by rw [hcount]; decide
      obtain ⟨answer, left, hrun, hleft, -, -, harity, -⟩ :=
        checkGlobalPtr_decides (s := { program := p }) (u := 1) (by rw [hcount]; decide) hindices
          ⟨Storage.linked_growAll Storage.linked_empty hgrow, hnodes⟩
      have hleft := hleft 1 rfl
      rw [htype, h₁] at hleft
      -- the second node is addressed by one index as its parent says, the third one is not
      have hpass : ∀ j ∈ [1, 4], t.Admits 1 j := by
        simp [Storage.Admits, h₀, h₁, h₂, h₄]
      have herror := harity [1, 4] 5 [] 3 rfl hpass (by rw [h₅]) (by rw [h₃]; decide)
        (by rw [h₃]; decide)
      rw [h₃] at herror
      refine ⟨t, ids, p, made, left, rfl, rfl, ?_, hleft⟩
      rw [hrun, herror]
      rfl

end Checker

end TensorKernel
