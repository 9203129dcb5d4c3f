import Mathlib.Data.Fintype.Card
import Mathlib.Data.Fintype.EquivFin
import Mathlib.Data.List.Nodup
import Mathlib.Data.List.Pairwise
import TensorKernel.Proofs.Order

/-!
# Trees of blocks

A program is a tree when every block but the root is nested in exactly one place and the root in
none (`Program.Tree`). Then no block that can be reached lies in itself (`Tree.acyclic`), and every
instruction has one place in program order (`Tree.order_nodup`): a block has one parent, so two
blocks that are nested side by side have nothing in common below them. If no block at all lies in
itself, every block can be reached (`Tree.reaches`).

In the order an instruction stands right before what its blocks hold (`Fits.exists_run`), and a
block holds what stands in it or below it (`mem_order_iff`).
-/

namespace TensorKernel.Program

open Relation (ReflTransGen TransGen)

variable {p : Program} {x y : StmtId} {a b c : BlockId} {depth : Nat}

/-- The places in which blocks are nested, in the order of the instructions. -/
def slots (p : Program) : List BlockId := (List.range p.size).flatMap fun x => (p.instrAt x).blocks

/-- **Every block but the root is nested in one place**, and the root in none. -/
structure Tree (p : Program) : Prop where
  nodup : p.slots.Nodup
  mem_slots : ∀ b, b ∈ p.slots ↔ b ≠ root ∧ b < p.blocks.size

namespace Tree

theorem mem_slots_of_blocks (hx : x < p.size) (hb : b ∈ (p.instrAt x).blocks) : b ∈ p.slots :=
  List.mem_flatMap.2 ⟨x, List.mem_range.2 hx, hb⟩

theorem blocks_nodup (h : p.Tree) (hx : x < p.size) : (p.instrAt x).blocks.Nodup :=
  (List.nodup_flatMap.1 h.nodup).1 x (List.mem_range.2 hx)

/-- A block is nested by one instruction. -/
theorem owner_unique (h : p.Tree) (hx : x < p.size) (hy : y < p.size)
    (hbx : b ∈ (p.instrAt x).blocks) (hby : b ∈ (p.instrAt y).blocks) : x = y := by
  by_contra hne
  have hsymm : Std.Symm (Function.onFun List.Disjoint fun x => (p.instrAt x).blocks) :=
    ⟨fun _ _ hdisjoint => hdisjoint.symm⟩
  -- different instructions nest different blocks
  have hdisjoint := (List.nodup_flatMap.1 h.nodup).2.forall (List.mem_range.2 hx)
    (List.mem_range.2 hy) hne
  exact hdisjoint hbx hby

/-- A block has one parent. -/
theorem parent_unique (h : p.Tree) (hp : p.Coherent) (ha : p.Nests a c) (hb : p.Nests b c) :
    a = b := by
  obtain ⟨x, hx, hcx⟩ := ha
  obtain ⟨y, hy, hcy⟩ := hb
  obtain ⟨hxlt, hxhome⟩ := hp.owned a x hx
  obtain ⟨hylt, hyhome⟩ := hp.owned b y hy
  rw [← hxhome, ← hyhome, h.owner_unique hxlt hylt hcx hcy]

/-- **No block of a tree lies in itself.** -/
theorem acyclic (h : p.Tree) (hp : p.Coherent) : p.Acyclic := by
  intro b hb
  induction hb with
  | refl =>
    -- the last step of a way back to the root would nest the root
    intro hback
    obtain ⟨a, -, x, hx, hroot⟩ := TransGen.tail'_iff.1 hback
    exact ((h.mem_slots root).1 (mem_slots_of_blocks (hp.owned a x hx).1 hroot)).1 rfl
  | tail _ hnest ih =>
    -- a way from `b` back to `b` passes the parent of `b`
    intro hback
    obtain ⟨c, hway, hlast⟩ := TransGen.tail'_iff.1 hback
    rw [h.parent_unique hp hlast hnest] at hway
    exact ih (.head' hnest hway)

/-- **A tree without cycles hangs together**: every block lies below the root. -/
theorem reaches (h : p.Tree) (hp : p.Coherent) (hcycle : ∀ b, ¬ TransGen p.Nests b b)
    (hb : b < p.blocks.size) : ReflTransGen p.Nests root b := by
  -- there are finitely many blocks, so the way up from one of them ends
  have htrans : IsTrans (Fin p.blocks.size) fun a b => TransGen p.Nests a b :=
    ⟨fun _ _ _ => TransGen.trans⟩
  have hirrefl : Std.Irrefl fun a b : Fin p.blocks.size => TransGen p.Nests a b :=
    ⟨fun a => hcycle a⟩
  have hwf := Finite.wellFounded_of_trans_of_irrefl
    fun a b : Fin p.blocks.size => TransGen p.Nests a b
  have hall : ∀ b : Fin p.blocks.size, ReflTransGen p.Nests root b := by
    intro b
    induction b using hwf.induction with
    | h b ih =>
      by_cases hroot : b = root
      · rw [hroot]
      · -- the instruction that nests `b` stands in a block of which this is known
        obtain ⟨x, hx, hbx⟩ := List.mem_flatMap.1 ((h.mem_slots b).2 ⟨hroot, b.2⟩)
        have hmem := hp.listed x (List.mem_range.1 hx)
        have hnest : p.Nests (p.homeAt x) b := ⟨x, hmem, hbx⟩
        exact (ih ⟨p.homeAt x, lt_size_of_mem_listAt hmem⟩ (.single hnest)).tail hnest
  exact hall ⟨b, hb⟩

/-- Two blocks with something in common below them lie one in the other. -/
theorem comparable {d : BlockId} (h : p.Tree) (hp : p.Coherent) (hb : ReflTransGen p.Nests b d)
    (hc : ReflTransGen p.Nests c d) : ReflTransGen p.Nests b c ∨ ReflTransGen p.Nests c b := by
  -- seen from below, the way up is unique
  have hunique : Relator.RightUnique (Function.swap p.Nests) := fun _ _ _ h₁ h₂ =>
    h.parent_unique hp h₁ h₂
  have hways := ReflTransGen.total_of_right_unique hunique hb.swap hc.swap
  exact (hways.imp Relation.reflTransGen_swap.1 Relation.reflTransGen_swap.1).symm

/-- Blocks that are nested side by side have nothing in common below them. -/
theorem eq_of_common {d : BlockId} (h : p.Tree) (hp : p.Coherent)
    (ha : ReflTransGen p.Nests root a) (hab : p.Nests a b) (hac : p.Nests a c)
    (hb : ReflTransGen p.Nests b d) (hc : ReflTransGen p.Nests c d) : b = c := by
  -- a way from one to the other would pass their parent and lead back to it
  have hinside : ∀ {b c : BlockId}, p.Nests a b → p.Nests a c → ReflTransGen p.Nests b c →
      b = c := by
    intro b c hab hac hway
    rcases hway.cases_tail with hcb | ⟨e, hbe, hec⟩
    · exact hcb.symm
    · rw [h.parent_unique hp hec hac] at hbe
      exact absurd (TransGen.head' hab hbe) (h.acyclic hp a ha)
  rcases h.comparable hp hb hc with hway | hway
  · exact hinside hab hac hway
  · exact (hinside hac hab hway).symm

end Tree

/-! ### One place for every instruction -/

/-- What is listed in the order from a block on stands in a block below it. -/
theorem exists_of_mem_order (hx : x ∈ p.order depth b) :
    ∃ d, ReflTransGen p.Nests b d ∧ x ∈ p.listAt d := by
  induction depth generalizing b with
  | zero => cases hx
  | succ depth ih =>
    obtain ⟨y, hy, hx⟩ := List.mem_flatMap.1 hx
    rcases List.mem_cons.1 hx with rfl | hx
    · exact ⟨b, .refl, hy⟩
    · obtain ⟨c, hc, hx⟩ := List.mem_flatMap.1 hx
      obtain ⟨d, hd, hx⟩ := ih hx
      exact ⟨d, .head ⟨y, hy, hc⟩ hd, hx⟩

/-- **What the order from a block on lists** stands in a block below it. -/
theorem mem_order_iff (hfits : p.Fits depth b) :
    x ∈ p.order depth b ↔ ∃ d, ReflTransGen p.Nests b d ∧ x ∈ p.listAt d := by
  refine ⟨exists_of_mem_order, ?_⟩
  rintro ⟨d, hway, hx⟩
  -- on the way down, from its first block
  induction hway using ReflTransGen.head_induction_on generalizing depth with
  | refl =>
    cases depth with
    | zero => exact hfits.elim
    | succ depth => exact List.mem_flatMap.2 ⟨x, hx, List.mem_cons_self⟩
  | head hnest _ ih =>
    cases depth with
    | zero => exact hfits.elim
    | succ depth =>
      obtain ⟨y, hy, hc⟩ := hnest
      have hmem := ih ((hfits.2 y hy).2 _ hc)
      exact List.mem_flatMap.2
        ⟨y, hy, List.mem_cons_of_mem _ (List.mem_flatMap.2 ⟨_, hc, hmem⟩)⟩

/-- In a tree without cycles everything can be reached. -/
theorem Tree.mem_reachable {order : List StmtId} (h : p.Tree) (hp : p.Coherent)
    (horder : p.reachable = .ok order) (hcycle : ∀ b, ¬ TransGen p.Nests b b) (hx : x < p.size) :
    x ∈ order := by
  obtain ⟨hfits, rfl⟩ := contents_eq_ok_iff.1 horder
  have hlisted := hp.listed x hx
  exact (mem_order_iff hfits).2 ⟨_, h.reaches hp hcycle (lt_size_of_mem_listAt hlisted), hlisted⟩

/-- **In program order an instruction stands right before its blocks**, one after the other. -/
theorem Fits.exists_run (hfits : p.Fits depth b) (hx : x ∈ p.order depth b) :
    (∀ c ∈ (p.instrAt x).blocks, p.Fits depth c) ∧ ∃ front back,
      p.order depth b = front ++ x :: ((p.instrAt x).blocks.flatMap (p.order depth) ++ back) := by
  induction depth generalizing b with
  | zero => exact hfits.elim
  | succ depth ih =>
    -- a block that fits one level less is listed alike at this depth
    have hraise : ∀ {z}, (∀ c ∈ (p.instrAt z).blocks, p.Fits depth c) →
        (∀ c ∈ (p.instrAt z).blocks, p.Fits (depth + 1) c) ∧
          (p.instrAt z).blocks.flatMap (p.order (depth + 1)) =
            (p.instrAt z).blocks.flatMap (p.order depth) := fun h =>
      ⟨fun c hc => ((h c hc).mono (Nat.le_succ _)).1,
        List.flatMap_congr fun c hc => ((h c hc).mono (Nat.le_succ _)).2⟩
    obtain ⟨y, hy, hxy⟩ := List.mem_flatMap.1 hx
    obtain ⟨l, l', hl⟩ := List.append_of_mem hy
    have hnested := (hfits.2 y hy).2
    have horder : p.order (depth + 1) b =
        l.flatMap (fun z => z :: (p.instrAt z).blocks.flatMap (p.order depth)) ++
          (y :: (p.instrAt y).blocks.flatMap (p.order depth) ++
            l'.flatMap fun z => z :: (p.instrAt z).blocks.flatMap (p.order depth)) := by
      rw [order, hl, List.flatMap_append, List.flatMap_cons]
    rcases List.mem_cons.1 hxy with rfl | hxy
    · obtain ⟨hfits', hblocks⟩ := hraise hnested
      exact ⟨hfits', _, _, by rw [horder, hblocks, List.cons_append]⟩
    · -- `x` stands in a block that `y` nests, and there it is cut out
      obtain ⟨c, hc, hxc⟩ := List.mem_flatMap.1 hxy
      obtain ⟨k, k', hk⟩ := List.append_of_mem hc
      obtain ⟨hbelow, front, back, hcut⟩ := ih (hnested c hc) hxc
      obtain ⟨hfits', hblocks⟩ := hraise hbelow
      refine ⟨hfits', l.flatMap (fun z => z :: (p.instrAt z).blocks.flatMap (p.order depth)) ++
        y :: (k.flatMap (p.order depth) ++ front), back ++ (k'.flatMap (p.order depth) ++
          l'.flatMap fun z => z :: (p.instrAt z).blocks.flatMap (p.order depth)), ?_⟩
      rw [horder, hk, List.flatMap_append, List.flatMap_cons, hcut, hblocks]
      simp only [List.append_assoc, List.cons_append]

/-- **In a tree every instruction has one place in program order.** -/
theorem Tree.order_nodup (h : p.Tree) (hp : p.Coherent) (hb : ReflTransGen p.Nests root b) :
    (p.order depth b).Nodup := by
  induction depth generalizing b with
  | zero => exact List.nodup_nil
  | succ depth ih =>
    have hnested : ∀ {x c d : Nat}, x ∈ p.listAt b → c ∈ (p.instrAt x).blocks →
        d ∈ p.order depth c →
        ∃ e, ReflTransGen p.Nests c e ∧ p.Nests b c ∧ p.homeAt d = e := by
      intro x c d hx hc hd
      obtain ⟨e, he, hd⟩ := exists_of_mem_order hd
      exact ⟨e, he, ⟨_, hx, hc⟩, (hp.owned e _ hd).2⟩
    -- nothing below a block that is nested in `b` is listed in `b`
    have hbelow : ∀ {x c y : Nat}, x ∈ p.listAt b → c ∈ (p.instrAt x).blocks →
        y ∈ p.listAt b → y ∉ p.order depth c := by
      intro x c y hx hc hy hmem
      obtain ⟨e, he, hbc, hhome⟩ := hnested hx hc hmem
      rw [(hp.owned b _ hy).2] at hhome
      subst hhome
      exact h.acyclic hp b hb (.head' hbc he)
    -- no part of the order has repetitions, and no two parts have anything in common
    rw [order, List.nodup_flatMap]
    refine ⟨?_, (hp.nodup b).imp_of_mem fun {x y} hx hy hne z hzx hzy => ?_⟩
    · -- what one instruction of `b` contributes
      intro x hx
      have hlt := (hp.owned b x hx).1
      refine List.nodup_cons.2 ⟨?_, List.nodup_flatMap.2 ⟨?_, ?_⟩⟩
      · intro hmem
        obtain ⟨c, hc, hmem⟩ := List.mem_flatMap.1 hmem
        exact hbelow hx hc hx hmem
      · intro c hc
        exact ih (hb.tail ⟨x, hx, hc⟩)
      · refine (h.blocks_nodup hlt).imp_of_mem fun {c d} hc hd hcd z hzc hzd => ?_
        obtain ⟨e, he, hbc, hhome⟩ := hnested hx hc hzc
        obtain ⟨e', he', hbd, hhome'⟩ := hnested hx hd hzd
        -- `z` stands in one block, which then lies below both `c` and `d`
        exact hcd (h.eq_of_common hp hb hbc hbd he (hhome.symm.trans hhome' ▸ he'))
    · -- what two instructions of `b` contribute
      rcases List.mem_cons.1 hzx with rfl | hzx
      · rcases List.mem_cons.1 hzy with rfl | hzy
        · exact hne rfl
        · obtain ⟨c, hc, hzy⟩ := List.mem_flatMap.1 hzy
          exact hbelow hy hc hx hzy
      · obtain ⟨c, hc, hzx⟩ := List.mem_flatMap.1 hzx
        rcases List.mem_cons.1 hzy with rfl | hzy
        · exact hbelow hx hc hy hzx
        · obtain ⟨d, hd, hzy⟩ := List.mem_flatMap.1 hzy
          obtain ⟨e, he, hbc, hhome⟩ := hnested hx hc hzx
          obtain ⟨e', he', hbd, hhome'⟩ := hnested hy hd hzy
          have hcd := h.eq_of_common hp hb hbc hbd he (hhome.symm.trans hhome' ▸ he')
          subst hcd
          exact hne (h.owner_unique (hp.owned b x hx).1 (hp.owned b y hy).1 hc hd)

end TensorKernel.Program
