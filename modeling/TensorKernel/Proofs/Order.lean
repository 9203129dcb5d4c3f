import Mathlib.Data.Finset.Card
import Mathlib.Data.Finset.Range
import Mathlib.Data.Finset.Filter
import TensorKernel.Program.Walk
import TensorKernel.Proofs.Erasure

/-!
# Program order

`Program.order` is the program order as a plain function, and `Program.Fits` says that a block is
nested no deeper than a given depth; together they are what `Program.contents` computes
(`contents_eq_ok_iff`). A program in which no block that can be reached lies in itself
(`Program.Acyclic`) fits its own bound on nesting, since along a path of nested blocks the number
of blocks that are still to be reached shrinks (`Walkable.fits`).

Inserted conversions are listed in the order and change nothing else about it
(`Extends.order_filter`), nor about the nesting (`Extends.nests_iff`).
-/

namespace TensorKernel.Program

open Relation (ReflTransGen TransGen)

variable {p q : Program} {x : StmtId} {b b' : BlockId} {depth : Nat} {l : List StmtId}

/-! ### The order as a function -/

/-- The instructions of a block and of all blocks nested in it, in program order, to a given
depth. -/
def order (p : Program) : Nat → BlockId → List StmtId
  | 0, _ => []
  | depth + 1, b => (p.listAt b).flatMap fun x => x :: (p.instrAt x).blocks.flatMap (p.order depth)

/-- Every value that is read has a type. -/
def Total (p : Program) : Prop :=
  ∀ u ∈ p.order p.nestingBound root, ∀ o ∈ (p.instrAt u).typedOperands,
    (p.typeAt o).elem.isUnknown = false

/-- A block, and what is nested in it to a given depth, exists and ends there. -/
def Fits (p : Program) : Nat → BlockId → Prop
  | 0, _ => False
  | depth + 1, b => b < p.blocks.size ∧
      ∀ x ∈ p.listAt b, x < p.size ∧ ∀ b' ∈ (p.instrAt x).blocks, p.Fits depth b'

private theorem mapM_eq_ok_of_forall {α β : Type} {f : α → Except Fault β} {g : α → β}
    {l : List α} (h : ∀ x ∈ l, f x = .ok (g x)) : l.mapM f = .ok (l.map g) := by
  induction l with
  | nil => rfl
  | cons x l ih =>
    rw [List.mapM_cons, h x List.mem_cons_self, ih fun y hy => h y (List.mem_cons_of_mem _ hy)]
    rfl

private theorem mapM_ok_forall {α β : Type} {f : α → Except Fault β} {l : List α} {made : List β}
    (h : l.mapM f = .ok made) : ∀ x ∈ l, ∃ y, f x = .ok y := by
  induction l generalizing made with
  | nil => exact fun x hx => nomatch hx
  | cons x l ih =>
    rw [List.mapM_cons, Fault.bind_eq_ok_iff] at h
    obtain ⟨y, hy, h⟩ := h
    rw [Fault.bind_eq_ok_iff] at h
    obtain ⟨ys, hys, -⟩ := h
    -- the first element has gone through, and the others by induction
    intro z hz
    rcases List.mem_cons.1 hz with rfl | hz
    · exact ⟨y, hy⟩
    · exact ih hys z hz

/-- A walk through the instructions of a block, and through the blocks that each of them nests. -/
theorem mapM_nested_eq_ok {α β : Type} {f : BlockId → Except Fault α} {g : BlockId → α}
    (made : StmtId → Stmt → List α → β) (h : ∀ x ∈ p.listAt b, x < p.size ∧
      ∀ b' ∈ (p.instrAt x).blocks, f b' = .ok (g b')) :
    (p.listAt b).mapM (fun x => do
        let s ← p.stmt x
        let nested ← s.instr.blocks.mapM f
        return made x s nested) =
      .ok ((p.listAt b).map fun x => made x (p.stmtAt x) ((p.instrAt x).blocks.map g)) := by
  apply mapM_eq_ok_of_forall
  intro x hx
  obtain ⟨hlt, hnested⟩ := h x hx
  -- everything that is nested is made, by what is known of the blocks
  have hmap : (p.stmtAt x).instr.blocks.mapM f = .ok ((p.instrAt x).blocks.map g) :=
    mapM_eq_ok_of_forall hnested
  rw [stmt_eq hlt, Fault.bind_eq_ok_iff]
  refine ⟨_, rfl, ?_⟩
  rw [hmap]
  rfl

theorem contents_eq (h : p.Fits depth b) : p.contents depth b = .ok (p.order depth b) := by
  induction depth generalizing b with
  | zero => exact h.elim
  | succ depth ih =>
    obtain ⟨hb, hlist⟩ := h
    -- the blocks that an instruction nests fit one level less
    have hparts := mapM_nested_eq_ok (fun x _ nested => x :: nested.flatten) fun x hx =>
      ⟨(hlist x hx).1, fun b' hb' => ih ((hlist x hx).2 b' hb')⟩
    rw [contents, block_eq hb, Fault.bind_eq_ok_iff]
    refine ⟨_, rfl, Fault.bind_eq_ok_iff.2 ⟨_, hparts, ?_⟩⟩
    simp only [order, List.flatMap_def]
    rfl

theorem fits_of_contents (h : p.contents depth b = .ok l) : p.Fits depth b := by
  induction depth generalizing b l with
  | zero => cases h
  | succ depth ih =>
    rw [contents, Fault.bind_eq_ok_iff] at h
    obtain ⟨k, hk, h⟩ := h
    rw [Fault.bind_eq_ok_iff] at h
    obtain ⟨parts, hparts, -⟩ := h
    obtain ⟨hb, rfl⟩ := lt_size_of_block hk
    refine ⟨hb, ?_⟩
    intro x hx
    -- the walk went through every instruction, and through every block that it nests
    obtain ⟨_, hx⟩ := mapM_ok_forall hparts x hx
    rw [Fault.bind_eq_ok_iff] at hx
    obtain ⟨s, hs, hx⟩ := hx
    rw [Fault.bind_eq_ok_iff] at hx
    obtain ⟨nested, hnested, -⟩ := hx
    obtain ⟨hlt, rfl⟩ := lt_size_of_stmt hs
    exact ⟨hlt, fun b' hb' => (mapM_ok_forall hnested b' hb').elim fun _ h => ih h⟩

/-- **The walk through a program** finds the program order, if the nesting ends. -/
theorem contents_eq_ok_iff :
    p.contents depth b = .ok l ↔ p.Fits depth b ∧ l = p.order depth b := by
  constructor
  · intro h
    have hfits := fits_of_contents h
    rw [contents_eq hfits] at h
    exact ⟨hfits, (Except.ok.inj h).symm⟩
  · rintro ⟨h, rfl⟩
    exact contents_eq h

/-- A larger depth changes nothing about a block that fits. -/
theorem Fits.mono {depth' : Nat} (h : p.Fits depth b) (hle : depth ≤ depth') :
    p.Fits depth' b ∧ p.order depth' b = p.order depth b := by
  induction depth generalizing b depth' with
  | zero => exact h.elim
  | succ depth ih =>
    obtain ⟨depth', rfl⟩ : ∃ d, depth' = d + 1 := ⟨depth' - 1, by omega⟩
    have hle := Nat.le_of_succ_le_succ hle
    refine ⟨⟨h.1, fun x hx => ⟨(h.2 x hx).1, fun b' hb' => (ih ((h.2 x hx).2 b' hb') hle).1⟩⟩, ?_⟩
    unfold order
    refine List.flatMap_congr fun x hx => congrArg _ (List.flatMap_congr fun b' hb' => ?_)
    exact (ih ((h.2 x hx).2 b' hb') hle).2

theorem lt_size_of_mem_order (h : p.Fits depth b) (hx : x ∈ p.order depth b) : x < p.size := by
  induction depth generalizing b with
  | zero => exact h.elim
  | succ depth ih =>
    obtain ⟨y, hy, hx⟩ := List.mem_flatMap.1 hx
    obtain ⟨hlt, hnested⟩ := h.2 y hy
    rcases List.mem_cons.1 hx with rfl | hx
    · exact hlt
    · obtain ⟨b', hb', hx⟩ := List.mem_flatMap.1 hx
      exact ih (hnested b' hb') hx

theorem lt_size_of_mem_reachable (h : p.reachable = .ok l) (hx : x ∈ l) : x < p.size := by
  obtain ⟨hfits, rfl⟩ := contents_eq_ok_iff.1 h
  exact lt_size_of_mem_order hfits hx

/-! ### Nesting -/

/-- No instruction nests a block that does not exist. -/
def Nested (p : Program) : Prop :=
  ∀ x < p.size, ∀ b ∈ (p.instrAt x).blocks, b < p.blocks.size

instance (p : Program) : Decidable p.Nested :=
  inferInstanceAs (Decidable (∀ x < p.size, ∀ b ∈ (p.instrAt x).blocks, b < p.blocks.size))

/-- Every number that a walk follows refers to something: there is a root, and what the blocks list
and what the instructions nest exists. -/
structure Walkable (p : Program) : Prop where
  root_lt : root < p.blocks.size
  listed : ∀ b, ∀ x ∈ p.listAt b, x < p.size
  nested : p.Nested

theorem Coherent.walkable (hp : p.Coherent) (hnested : p.Nested) : p.Walkable :=
  ⟨hp.root_lt, fun b x hx => (hp.owned b x hx).1, hnested⟩

/-- An instruction of `b` nests `b'`. -/
def Nests (p : Program) (b b' : BlockId) : Prop :=
  ∃ x ∈ p.listAt b, b' ∈ (p.instrAt x).blocks

/-- No block that can be reached from the root lies in itself. -/
def Acyclic (p : Program) : Prop :=
  ∀ b, ReflTransGen p.Nests root b → ¬ TransGen p.Nests b b

/-- Blocks that nest only later ones do not lie in themselves. -/
theorem Coherent.not_nests_self (hp : p.Coherent)
    (h : ∀ x < p.size, ∀ b ∈ (p.instrAt x).blocks, p.homeAt x < b) (b : BlockId) :
    ¬ TransGen p.Nests b b := by
  -- each step leads to a later block, so a way through blocks does too
  have hnests : ∀ b b', p.Nests b b' → b < b' := by
    rintro b b' ⟨x, hx, hb'⟩
    obtain ⟨hlt, rfl⟩ := hp.owned b x hx
    exact h x hlt b' hb'
  have hlt : ∀ b b', TransGen p.Nests b b' → b < b' := by
    intro b b' hpath
    induction hpath with
    | single hnest => exact hnests _ _ hnest
    | tail _ hnest ih => exact ih.trans (hnests _ _ hnest)
  exact fun hself => Nat.lt_irrefl b (hlt b b hself)

theorem Coherent.acyclic_of_lt (hp : p.Coherent)
    (h : ∀ x < p.size, ∀ b ∈ (p.instrAt x).blocks, p.homeAt x < b) : p.Acyclic :=
  fun b _ => hp.not_nests_self h b

open Classical in
/-- The blocks that can be reached from a block. -/
private noncomputable def below (p : Program) (b : BlockId) : Finset BlockId :=
  (Finset.range p.blocks.size).filter (ReflTransGen p.Nests b)

open Classical in
private theorem mem_below {c : BlockId} :
    c ∈ p.below b ↔ c < p.blocks.size ∧ ReflTransGen p.Nests b c := by
  simp [below]

private theorem card_below_lt (hb : b < p.blocks.size) (hnest : p.Nests b b')
    (hacyclic : ¬ TransGen p.Nests b b) : (p.below b').card < (p.below b).card := by
  refine Finset.card_lt_card ⟨?_, ?_⟩
  · intro c hc
    obtain ⟨hc, hreach⟩ := mem_below.1 hc
    exact mem_below.2 ⟨hc, .head hnest hreach⟩
  · -- were `b` below `b'`, it would lie in itself
    intro hsub
    have hself := hsub (mem_below.2 ⟨hb, .refl⟩)
    exact hacyclic (.head' hnest (mem_below.1 hself).2)

private theorem fits_of_card_below_le (hp : p.Walkable) (hacyclic : p.Acyclic)
    (hreach : ReflTransGen p.Nests root b) (hb : b < p.blocks.size)
    (hcard : (p.below b).card ≤ depth) : p.Fits depth b := by
  induction depth generalizing b with
  | zero =>
    -- at least `b` itself is still to be reached
    have hmem : b ∈ p.below b := mem_below.2 ⟨hb, .refl⟩
    have hpos := Finset.card_pos.2 ⟨b, hmem⟩
    exact absurd hcard (Nat.not_le.2 hpos)
  | succ depth ih =>
    refine ⟨hb, fun x hx => ⟨hp.listed b x hx, ?_⟩⟩
    intro b' hb'
    have hnest : p.Nests b b' := ⟨x, hx, hb'⟩
    have hlt := card_below_lt hb hnest (hacyclic b hreach)
    exact ih (hreach.tail hnest) (hp.nested x (hp.listed b x hx) b' hb') (by omega)

/-- **The bound on nesting is enough** for a program in which no block lies in itself. -/
theorem Walkable.fits (hp : p.Walkable) (hacyclic : p.Acyclic) : p.Fits p.nestingBound root := by
  refine fits_of_card_below_le hp hacyclic .refl hp.root_lt ?_
  -- no more blocks can be reached than there are
  have hsub : p.below root ⊆ Finset.range p.blocks.size := fun c hc =>
    Finset.mem_range.2 (mem_below.1 hc).1
  exact (Finset.card_le_card hsub).trans (Finset.card_range _).le

theorem fits_of_nested (hp : p.Coherent) (hnested : p.Nested) (hacyclic : p.Acyclic) :
    p.Fits p.nestingBound root :=
  (hp.walkable hnested).fits hacyclic

theorem fits_of_acyclic (hp : p.Coherent) (hclosed : p.Closed) (hacyclic : p.Acyclic) :
    p.Fits p.nestingBound root :=
  fits_of_nested hp hclosed.blocks hacyclic

/-! ### Order and conversions -/

theorem Extends.fits (h : p.Extends q) (hq : q.Coherent) (hfits : p.Fits depth b) :
    q.Fits depth b := by
  induction depth generalizing b with
  | zero => exact hfits.elim
  | succ depth ih =>
    refine ⟨h.blocks_size ▸ hfits.1, fun x hx => ⟨(hq.owned b x hx).1, ?_⟩⟩
    intro b' hb'
    -- a conversion nests nothing, and an original instruction what it nested
    rcases Nat.lt_or_ge x p.size with hlt | hge
    · have hmem : x ∈ p.listAt b := by
        rw [← h.list b]
        exact List.mem_filter.2 ⟨hx, decide_eq_true hlt⟩
      rw [h.nested x hlt] at hb'
      exact ih ((hfits.2 x hmem).2 b' hb')
    · obtain ⟨_, _, hi⟩ := Instr.isValueCast_iff.1 (h.fresh x hge (hq.owned b x hx).1)
      rw [hi] at hb'
      cases hb'

/-- **Conversions nest nothing**, and what nests a block goes on nesting it. -/
theorem Extends.nests_iff (h : p.Extends q) (hp : p.Coherent) (hq : q.Coherent) :
    q.Nests b b' ↔ p.Nests b b' := by
  constructor
  · rintro ⟨x, hx, hb'⟩
    obtain ⟨hlt, -⟩ := hq.owned b x hx
    -- an old instruction nests what it nested, and a new one nothing
    rcases Nat.lt_or_ge x p.size with hold | hnew
    · refine ⟨x, ?_, h.nested x hold ▸ hb'⟩
      rw [← h.list b]
      exact List.mem_filter.2 ⟨hx, decide_eq_true hold⟩
    · obtain ⟨_, _, hi⟩ := Instr.isValueCast_iff.1 (h.fresh x hnew hlt)
      rw [hi] at hb'
      cases hb'
  · rintro ⟨x, hx, hb'⟩
    refine ⟨x, ?_, (h.nested x (hp.owned b x hx).1).symm ▸ hb'⟩
    rw [← h.list b] at hx
    exact (List.mem_filter.1 hx).1

theorem flatMap_ite_nil {α β : Type} (l : List α) (keep : α → Bool) (g : α → List β) :
    (l.flatMap fun x => if keep x then g x else []) = (l.filter keep).flatMap g := by
  induction l with
  | nil => rfl
  | cons x l ih =>
    rw [List.flatMap_cons, ih]
    by_cases hx : keep x = true
    · rw [if_pos hx, List.filter_cons_of_pos hx, List.flatMap_cons]
    · rw [if_neg hx, List.filter_cons_of_neg hx, List.nil_append]

/-- **Without the conversions the program order is the one that was there.** -/
theorem Extends.order_filter (h : p.Extends q) (hq : q.Coherent) (hfits : p.Fits depth b) :
    (q.order depth b).filter (· < p.size) = p.order depth b := by
  induction depth generalizing b with
  | zero => exact hfits.elim
  | succ depth ih =>
    have hparts : ∀ x ∈ q.listAt b,
        (x :: (q.instrAt x).blocks.flatMap (q.order depth)).filter (· < p.size) =
          if decide (x < p.size) then x :: (p.instrAt x).blocks.flatMap (p.order depth)
          else [] := by
      intro x hx
      by_cases hlt : x < p.size
      · rw [if_pos (decide_eq_true hlt), List.filter_cons_of_pos (by simpa using hlt),
          h.nested x hlt, List.filter_flatMap]
        have hmem : x ∈ p.listAt b := by
          rw [← h.list b]
          exact List.mem_filter.2 ⟨hx, decide_eq_true hlt⟩
        exact congrArg _ (List.flatMap_congr fun b' hb' => ih ((hfits.2 x hmem).2 b' hb'))
      · obtain ⟨_, _, hi⟩ := Instr.isValueCast_iff.1
          (h.fresh x (Nat.le_of_not_lt hlt) (hq.owned b x hx).1)
        rw [if_neg (by simpa using hlt), List.filter_cons_of_neg (by simpa using hlt), hi]
        rfl
    -- an instruction of `p` contributes what it did, and a conversion nothing
    calc (q.order (depth + 1) b).filter (· < p.size)
        = (q.listAt b).flatMap fun x =>
            if decide (x < p.size) then x :: (p.instrAt x).blocks.flatMap (p.order depth)
            else [] := by rw [order, List.filter_flatMap, List.flatMap_congr hparts]
      _ = ((q.listAt b).filter (· < p.size)).flatMap fun x =>
            x :: (p.instrAt x).blocks.flatMap (p.order depth) := flatMap_ite_nil _ _ _
      _ = p.order (depth + 1) b := by rw [h.list, order]

/-- **What can be reached with the conversions** are the conversions and what could be reached. -/
theorem Extends.exists_reachable {order : List StmtId} (h : p.Extends q) (hq : q.Coherent)
    (horder : p.reachable = .ok order) :
    ∃ final, q.reachable = .ok final ∧ (∀ x ∈ final, x < q.size) ∧
      final.filter (· < p.size) = order := by
  obtain ⟨hfits, rfl⟩ := contents_eq_ok_iff.1 horder
  have hbound : q.nestingBound = p.nestingBound := h.blocks_size
  have hfinal := h.fits hq hfits
  rw [← hbound] at hfinal
  refine ⟨_, contents_eq hfinal, fun x hx => lt_size_of_mem_order hfinal hx, ?_⟩
  rw [hbound]
  exact h.order_filter hq hfits

end TensorKernel.Program
