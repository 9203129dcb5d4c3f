import Mathlib.Data.List.Nodup
import Mathlib.Logic.Relation
import TensorKernel.Proofs.View

/-!
# What a rule may do to a program

A typing rule changes a program in few ways: it types its own instruction, an untyped slot or a
constant that bounds a loop, it inserts a conversion right before its instruction or right after
one of its operands, and it points its instruction at what was converted. `Program.Move n u` is
the list of these ways for the rule of instruction `u`, each with what is known when it is taken;
`n` is the number of instructions of the program as it was given, so that the instructions from
`n` on are the inserted conversions.

Whatever holds of all moves holds of a whole check, however it ends, so a property of every run is
proven here once for each kind of move and nowhere for each rule:

* `StandsFor` — one instruction is another one, seen through inserted conversions;
* `Redirected` — an instruction with some operands replaced, where a rule replaces operands at all;
* `Dominates` — an instruction lies before another one, or before something that encloses it;
* `Extends` — nothing of the program is gone, moved or nested differently;
* `Move.coherent` and `Move.extends` — each move keeps the representation and extends the program.
-/

namespace TensorKernel

/-- **One instruction for another**: some operands were replaced, as `R new old` allows it, and a
division may have been lowered. Only the operands of a binary operator, the branches of a
selection and the values of stores and atomic operations are ever replaced. -/
inductive Redirected (R : StmtId → StmtId → Prop) : Instr → Instr → Prop
  | same (i : Instr) : Redirected R i i
  | binary {op op' : BinaryOp} {lhs rhs lhs' rhs' : StmtId} :
      op' = op ∨ (op = .floorDiv ∨ op = .trueDiv) ∧ op' = .div → R lhs' lhs → R rhs' rhs →
      Redirected R (.binary op lhs rhs) (.binary op' lhs' rhs')
  | select {cond onTrue onFalse onTrue' onFalse' : StmtId} :
      R onTrue' onTrue → R onFalse' onFalse →
      Redirected R (.ternary .select cond onTrue onFalse) (.ternary .select cond onTrue' onFalse')
  | localStore {slot value value' : StmtId} :
      R value' value → Redirected R (.localStore slot value) (.localStore slot value')
  | globalStore {ptr value value' : StmtId} :
      R value' value → Redirected R (.globalStore ptr value) (.globalStore ptr value')
  | atomic {op : AtomicOp} {dest value value' : StmtId} :
      R value' value → Redirected R (.atomic op dest value) (.atomic op dest value')

namespace Redirected

variable {R S : StmtId → StmtId → Prop} {i j k : Instr}

theorem mono (h : Redirected R i j) (hRS : ∀ x y, R x y → S x y) : Redirected S i j := by
  cases h with
  | same => exact .same _
  | binary hop hl hr => exact .binary hop (hRS _ _ hl) (hRS _ _ hr)
  | select ht hf => exact .select (hRS _ _ ht) (hRS _ _ hf)
  | localStore hv => exact .localStore (hRS _ _ hv)
  | globalStore hv => exact .globalStore (hRS _ _ hv)
  | atomic hv => exact .atomic (hRS _ _ hv)

theorem blocks_eq (h : Redirected R i j) : j.blocks = i.blocks := by
  cases h <;> rfl

/-- A store is still one to the same slot. -/
theorem exists_localStore {slot value : StmtId} (h : Redirected R i (.localStore slot value)) :
    ∃ value', i = .localStore slot value' := by
  cases h with
  | same => exact ⟨value, rfl⟩
  | localStore => exact ⟨_, rfl⟩

theorem of_localStore {slot value : StmtId} (h : Redirected R (.localStore slot value) j) :
    ∃ value', j = .localStore slot value' ∧ (value' = value ∨ R value' value) := by
  cases h with
  | same => exact ⟨value, rfl, .inl rfl⟩
  | localStore hvalue => exact ⟨_, rfl, .inr hvalue⟩

/-- A binary operator is still one, and a division is lowered at most. -/
theorem exists_binary {op : BinaryOp} {lhs rhs : StmtId} (h : Redirected R (.binary op lhs rhs) j) :
    ∃ op' l r, j = .binary op' l r ∧
      (op' = op ∨ (op = .floorDiv ∨ op = .trueDiv) ∧ op' = .div) := by
  cases h with
  | same => exact ⟨op, lhs, rhs, rfl, .inl rfl⟩
  | binary hop => exact ⟨_, _, _, rfl, hop⟩

theorem eq_rangeFor {first last : StmtId} {body : BlockId}
    (h : Redirected R i (.rangeFor first last body)) : i = .rangeFor first last body := by
  cases h
  rfl

/-- A conversion is left as it is. -/
theorem eq_of_isValueCast (h : Redirected R i j) (hi : i.isValueCast = true) : j = i := by
  cases h with
  | same => rfl
  | _ => cases hi

/-- Every operand is an old one or replaces an old one. -/
theorem exists_operand (h : Redirected R i j) {d : StmtId} (hd : d ∈ j.operands) :
    ∃ o ∈ i.operands, d = o ∨ R d o := by
  cases h with
  | same => exact ⟨d, hd, .inl rfl⟩
  | binary hop hl hr =>
    simp only [Instr.operands, List.mem_cons, List.not_mem_nil, or_false] at hd ⊢
    rcases hd with rfl | rfl
    · exact ⟨_, .inl rfl, .inr hl⟩
    · exact ⟨_, .inr rfl, .inr hr⟩
  | select ht hf =>
    simp only [Instr.operands, List.mem_cons, List.not_mem_nil, or_false] at hd ⊢
    rcases hd with rfl | rfl | rfl
    · exact ⟨_, .inl rfl, .inl rfl⟩
    · exact ⟨_, .inr (.inl rfl), .inr ht⟩
    · exact ⟨_, .inr (.inr rfl), .inr hf⟩
  -- the place that is accessed is never replaced
  | localStore hv | globalStore hv | atomic hv =>
    simp only [Instr.operands, List.mem_cons, List.not_mem_nil, or_false] at hd ⊢
    rcases hd with rfl | rfl
    · exact ⟨_, .inl rfl, .inl rfl⟩
    · exact ⟨_, .inr rfl, .inr hv⟩

/-- Replacing twice is replacing once, if the replacements compose. -/
theorem trans (h : Redirected R i j) (h' : Redirected R j k)
    (htrans : ∀ x y z, R x y → R y z → R x z) : Redirected R i k := by
  -- each operand goes through both redirections
  cases h with
  | same => exact h'
  | binary hop hl hr =>
    cases h' with
    | same => exact .binary hop hl hr
    | binary hop' hl' hr' =>
      -- only how the operator was lowered is not said by composition
      refine .binary ?_ (htrans _ _ _ hl' hl) (htrans _ _ _ hr' hr)
      rcases hop with rfl | ⟨hdiv, rfl⟩
      · exact hop'
      · -- once lowered, a division stays lowered
        rcases hop' with rfl | ⟨hdiv', rfl⟩
        · exact .inr ⟨hdiv, rfl⟩
        · exact .inr ⟨hdiv, rfl⟩
  | select ht hf =>
    cases h' with
    | same => exact .select ht hf
    | select ht' hf' => exact .select (htrans _ _ _ ht' ht) (htrans _ _ _ hf' hf)
  | localStore hv =>
    cases h' with
    | same => exact .localStore hv
    | localStore hv' => exact .localStore (htrans _ _ _ hv' hv)
  | globalStore hv =>
    cases h' with
    | same => exact .globalStore hv
    | globalStore hv' => exact .globalStore (htrans _ _ _ hv' hv)
  | atomic hv =>
    cases h' with
    | same => exact .atomic hv
    | atomic hv' => exact .atomic (htrans _ _ _ hv' hv)

end Redirected

theorem Instr.isValueCast_iff {i : Instr} :
    i.isValueCast = true ↔ ∃ target operand, i = .unary (.cast target true) operand := by
  constructor
  · intro h
    unfold isValueCast at h
    split at h
    · exact ⟨_, _, rfl⟩
    · cases h
  · rintro ⟨target, operand, rfl⟩
    rfl

namespace Program

variable {n : Nat} {p q r : Program} {u w x y c d o : StmtId} {b : BlockId}

/-! ### Inserted conversions -/

/-- `c` is `o`, or one of the inserted conversions on a chain that ends at `o`. -/
inductive StandsFor (n : Nat) (p : Program) : StmtId → StmtId → Prop
  | refl (o : StmtId) : StandsFor n p o o
  | cast {c d o : StmtId} {target : ElementType} :
      n ≤ c → p.instrAt c = .unary (.cast target true) d → StandsFor n p d o → StandsFor n p c o

namespace StandsFor

theorem trans (h : p.StandsFor n c d) (h' : p.StandsFor n d o) : p.StandsFor n c o := by
  induction h with
  | refl => exact h'
  | cast hc hi _ ih => exact .cast hc hi (ih h')

theorem mono (h : p.StandsFor n c o)
    (hcast : ∀ x, (p.instrAt x).isValueCast = true → q.instrAt x = p.instrAt x) :
    q.StandsFor n c o := by
  induction h with
  | refl => exact .refl _
  | cast hc hi _ ih =>
    -- every link of the chain is a conversion, and conversions stay
    have hq := hcast _ (Instr.isValueCast_iff.2 ⟨_, _, hi⟩)
    exact .cast hc (hq.trans hi) ih

theorem lt_size (h : p.StandsFor n c o) (ho : o < p.size) : c < p.size := by
  cases h with
  | refl => exact ho
  | cast hc hi _ => exact lt_size_of_instrAt_ne (by rw [hi]; simp)

/-- An original instruction stands for nothing but itself. -/
theorem eq_of_lt (h : p.StandsFor n c o) (hc : c < n) : c = o := by
  cases h with
  | refl => rfl
  | cast hge => exact absurd hc (Nat.not_lt.2 hge)

/-- What a conversion converts stands for the same original instruction. -/
theorem operand {target : ElementType} (h : p.StandsFor n c o) (hc : n ≤ c) (ho : o < n)
    (hi : p.instrAt c = .unary (.cast target true) d) : p.StandsFor n d o := by
  cases h with
  | refl => exact absurd ho (Nat.not_lt.2 hc)
  | cast _ hi' h =>
    cases hi.symm.trans hi'
    exact h

end StandsFor

/-! ### Dominance -/

/-- `w` nests the block that owns `x`. -/
def Encloses (p : Program) (w x : StmtId) : Prop :=
  w < p.size ∧ x < p.size ∧ p.homeAt x ∈ (p.instrAt w).blocks

/-- **`d` dominates `x`**: `x`, or something that encloses it in one or more steps, stands in the
block of `d`, later than `d`. -/
def Dominates (p : Program) (d x : StmtId) : Prop :=
  ∃ w, Relation.ReflTransGen p.Encloses w x ∧ [d, w].Sublist (p.listAt (p.homeAt d))

/-- `d` is read by `x` in the place of `o`. -/
structure Serves (n : Nat) (p : Program) (x d o : StmtId) : Prop where
  stands : p.StandsFor n d o
  /-- It is there in time whenever `o` is. -/
  dominates : p.Dominates o x → p.Dominates d x

theorem Serves.refl (n : Nat) (p : Program) (x o : StmtId) : p.Serves n x o o :=
  ⟨.refl o, id⟩

/-! ### Extension -/

/-- `q` is `p` with conversions inserted and types and operands changed: every instruction is
where it was and nests what it nested, and what is new are conversions. -/
structure Extends (p q : Program) : Prop where
  size_le : p.size ≤ q.size
  blocks_size : q.blocks.size = p.blocks.size
  parent : ∀ b, q.parentAt b = p.parentAt b
  id_eq : ∀ x < p.size, (q.stmtAt x).id = (p.stmtAt x).id
  span : ∀ x < p.size, q.spanAt x = p.spanAt x
  home : ∀ x < p.size, q.homeAt x = p.homeAt x
  nested : ∀ x < p.size, (q.instrAt x).blocks = (p.instrAt x).blocks
  cast : ∀ x, (p.instrAt x).isValueCast = true → q.instrAt x = p.instrAt x
  fresh : ∀ x, p.size ≤ x → x < q.size → (q.instrAt x).isValueCast = true
  list : ∀ b, (q.listAt b).filter (· < p.size) = p.listAt b

namespace Extends

theorem refl (hp : p.Coherent) : p.Extends p where
  size_le := Nat.le_refl _
  blocks_size := rfl
  parent _ := rfl
  id_eq _ _ := rfl
  span _ _ := rfl
  home _ _ := rfl
  nested _ _ := rfl
  cast _ _ := rfl
  fresh _ hx hx' := absurd hx (Nat.not_le.2 hx')
  list b := List.filter_eq_self.2 fun x hx => decide_eq_true (hp.owned b x hx).1

theorem trans (h : p.Extends q) (h' : q.Extends r) : p.Extends r where
  size_le := Nat.le_trans h.size_le h'.size_le
  blocks_size := h'.blocks_size.trans h.blocks_size
  parent b := (h'.parent b).trans (h.parent b)
  id_eq x hx := (h'.id_eq x (Nat.lt_of_lt_of_le hx h.size_le)).trans (h.id_eq x hx)
  span x hx := (h'.span x (Nat.lt_of_lt_of_le hx h.size_le)).trans (h.span x hx)
  home x hx := (h'.home x (Nat.lt_of_lt_of_le hx h.size_le)).trans (h.home x hx)
  nested x hx := (h'.nested x (Nat.lt_of_lt_of_le hx h.size_le)).trans (h.nested x hx)
  cast x hx := by
    have hq := h.cast x hx
    rw [h'.cast x (by rw [hq]; exact hx), hq]
  fresh x hx hx' := by
    -- inserted on the way to `q`, or after it
    rcases Nat.lt_or_ge x q.size with hlt | hge
    · have hq := h.fresh x hx hlt
      rw [h'.cast x hq]
      exact hq
    · exact h'.fresh x hge hx'
  list b := by
    rw [← h.list b, ← h'.list b, List.filter_filter]
    -- the coarser filter has dropped what the finer one would
    apply List.filter_congr
    intro x _
    have hle := h.size_le
    simp only [← Bool.decide_and]
    exact decide_eq_decide.2 ⟨fun hx => ⟨hx, Nat.lt_of_lt_of_le hx hle⟩, fun hx => hx.1⟩

/-- No list loses or reorders anything. -/
theorem sublist (h : p.Extends q) (b : BlockId) : (p.listAt b).Sublist (q.listAt b) := by
  rw [← h.list b]
  exact List.filter_sublist

theorem encloses (h : p.Extends q) (hw : p.Encloses w x) : q.Encloses w x := by
  obtain ⟨hlt, hlt', hmem⟩ := hw
  refine ⟨Nat.lt_of_lt_of_le hlt h.size_le, Nat.lt_of_lt_of_le hlt' h.size_le, ?_⟩
  rw [h.home x hlt', h.nested w hlt]
  exact hmem

theorem enclosesAll (h : p.Extends q) (hw : Relation.ReflTransGen p.Encloses w x) :
    Relation.ReflTransGen q.Encloses w x :=
  hw.lift (fun y => y) fun _ _ => h.encloses

/-- What dominates goes on dominating. -/
theorem dominates (h : p.Extends q) (hp : p.Coherent) (hd : p.Dominates d x) :
    q.Dominates d x := by
  obtain ⟨w, hw, hsub⟩ := hd
  -- `d` is old, so its block is the one that it was
  have hlt := (hp.owned _ d (hsub.subset List.mem_cons_self)).1
  refine ⟨w, h.enclosesAll hw, ?_⟩
  rw [h.home d hlt]
  exact hsub.trans (h.sublist _)

/-- What encloses an old instruction is old, since conversions nest nothing. -/
theorem lt_of_encloses (h : p.Extends q) (hw : Relation.ReflTransGen q.Encloses w x)
    (hx : x < p.size) : Relation.ReflTransGen p.Encloses w x ∧ w < p.size := by
  induction hw using Relation.ReflTransGen.head_induction_on with
  | refl => exact ⟨.refl, hx⟩
  | @head w v hwv _ ih =>
    obtain ⟨hv, hlt⟩ := ih
    obtain ⟨hw, -, hmem⟩ := hwv
    -- a conversion nests nothing, so it encloses nothing
    have hlt' : w < p.size := by
      by_contra hge
      obtain ⟨_, _, hi⟩ := Instr.isValueCast_iff.1 (h.fresh w (Nat.le_of_not_lt hge) hw)
      rw [hi] at hmem
      cases hmem
    rw [h.home v hlt, h.nested w hlt'] at hmem
    exact ⟨hv.head ⟨hlt', hlt, hmem⟩, hlt'⟩

/-- Among old instructions nothing new dominates. -/
theorem of_dominates (h : p.Extends q) (hd : d < p.size) (hx : x < p.size)
    (hdom : q.Dominates d x) : p.Dominates d x := by
  obtain ⟨w, hw, hsub⟩ := hdom
  obtain ⟨hw, hlt⟩ := h.lt_of_encloses hw hx
  refine ⟨w, hw, ?_⟩
  -- without the conversions the list is the old one, and `d` and `w` are in it
  have hfilter := hsub.filter (fun y => decide (y < p.size))
  rwa [h.home d hd, h.list, List.filter_cons_of_pos (by simpa using hd),
    List.filter_cons_of_pos (by simpa using hlt)] at hfilter

theorem standsFor (h : p.Extends q) (hc : p.StandsFor n c o) : q.StandsFor n c o :=
  hc.mono h.cast

theorem serves (h : p.Extends q) (hp : p.Coherent) (ho : o < p.size) (hx : x < p.size)
    (hd : p.Serves n x d o) : q.Serves n x d o where
  stands := h.standsFor hd.stands
  dominates hdom := h.dominates hp (hd.dominates (h.of_dominates ho hx hdom))

end Extends

/-! ### The extension by one change -/

theorem Coherent.extends_retype {t : VectorType} (hp : p.Coherent) :
    p.Extends (p.retype x t) where
  size_le := Nat.le_of_eq size_retype.symm
  blocks_size := rfl
  parent _ := rfl
  id_eq _ _ := id_stmtAt_retype
  span _ _ := spanAt_retype
  home _ _ := homeAt_retype
  nested _ _ := by rw [instrAt_retype]
  cast _ _ := instrAt_retype
  fresh y hy hy' := absurd hy (Nat.not_le.2 (size_retype ▸ hy'))
  list := (Extends.refl hp).list

theorem Coherent.extends_rewrite {R : StmtId → StmtId → Prop} {i : Instr} (hp : p.Coherent)
    (hu : u < p.size) (hi : Redirected R (p.instrAt u) i) : p.Extends (p.rewrite u i) where
  size_le := Nat.le_of_eq size_rewrite.symm
  blocks_size := rfl
  parent _ := rfl
  id_eq _ _ := id_stmtAt_rewrite
  span _ _ := spanAt_rewrite
  home _ _ := homeAt_rewrite
  -- what is pointed elsewhere nests what it nested, and is no conversion
  nested y _ := by
    rw [instrAt_rewrite hu]
    split
    · next hy => subst hy; exact hi.blocks_eq
    · rfl
  cast y hy := by
    rw [instrAt_rewrite hu]
    split
    · next hyu => subst hyu; exact hi.eq_of_isValueCast hy
    · rfl
  fresh y hy hy' := absurd hy (Nat.not_le.2 (size_rewrite ▸ hy'))
  list := (Extends.refl hp).list

theorem Coherent.extends_splice (hp : p.Coherent) (side : Side) {anchor : StmtId} (input : StmtId)
    (target : ElementType) (ha : anchor < p.size) :
    p.Extends (p.splice side anchor input target) where
  size_le := size_splice ▸ Nat.le_succ _
  blocks_size := blocks_size_splice
  parent _ := parentAt_splice
  id_eq x hx := by rw [stmtAt_splice_of_lt hx]
  span x hx := by rw [spanAt, stmtAt_splice_of_lt hx, spanAt]
  home x hx := homeAt_splice_of_lt hx
  nested x hx := by rw [instrAt_splice_of_lt hx]
  cast x hx := by
    have hlt : x < p.size := lt_size_of_instrAt_ne fun h => by rw [h] at hx; cases hx
    exact instrAt_splice_of_lt hlt
  fresh x hx hx' := by
    rw [size_splice] at hx'
    -- the one number that is new
    obtain rfl : x = p.size := by omega
    rw [instrAt_splice_size]
    rfl
  list b := by
    by_cases hb : b = p.homeAt anchor
    · subst hb
      obtain ⟨front, back, hl, hs⟩ := hp.listAt_splice side input target ha
      -- of the new list only the new number is dropped
      have hall : ∀ x ∈ p.listAt (p.homeAt anchor), (decide (x < p.size)) = true := by
        intro x hx
        exact decide_eq_true (hp.owned _ x hx).1
      have hself := List.filter_eq_self.2 hall
      rw [hl] at hself ⊢
      rw [hs, ← hself]
      cases side <;> simp [Side.around, List.filter_append, List.filter_cons]
    · rw [listAt_splice_of_ne hb]
      exact (Extends.refl hp).list b

/-! ### Dominance of what is inserted -/

private theorem pair_sublist_append {front back : List StmtId}
    (h : [d, w].Sublist (front ++ back)) :
    d ∈ front ∧ (w ∈ front ∨ w ∈ back) ∨ [d, w].Sublist back := by
  -- the pair is cut in two, a part in `front` and a part in `back`
  obtain ⟨l, l', hsplit, hl, hl'⟩ := List.sublist_append_iff.1 h
  cases l with
  | nil =>
    rw [List.nil_append] at hsplit
    exact .inr (hsplit ▸ hl')
  | cons head l =>
    obtain ⟨rfl, htail⟩ := List.cons.inj hsplit
    have hw : w ∈ l ++ l' := by
      change [w] = l ++ l' at htail
      rw [← htail]
      exact List.mem_singleton_self w
    refine .inl ⟨hl.subset List.mem_cons_self, ?_⟩
    rcases List.mem_append.1 hw with hw | hw
    · exact .inl (hl.subset (List.mem_cons_of_mem _ hw))
    · exact .inr (hl'.subset hw)

/-- What stands after `d` stands behind the place of `d`. -/
private theorem mem_back_of_pair_sublist {front back : List StmtId}
    (hnd : (front ++ d :: back).Nodup) (h : [d, w].Sublist (front ++ d :: back)) : w ∈ back := by
  have hnot := List.nodup_middle.1 hnd
  rw [List.nodup_cons, List.mem_append, not_or] at hnot
  obtain ⟨⟨hfront, hback⟩, -⟩ := hnot
  rcases pair_sublist_append h with ⟨hd, -⟩ | h
  · exact absurd hd hfront
  -- `d` is there once, so the pair starts at this very place
  rcases List.sublist_cons_iff.1 h with h | ⟨_, heq, h⟩
  · exact absurd (h.subset List.mem_cons_self) hback
  · cases heq
    exact List.singleton_sublist.1 h

/-- What stands before `w` stands in front of the last place of `w`. -/
theorem mem_front_of_pair_sublist {front back : List StmtId} (hback : w ∉ back)
    (h : [d, w].Sublist (front ++ w :: back)) : d ∈ front := by
  rcases pair_sublist_append h with ⟨hd, -⟩ | h
  · exact hd
  -- `w` is not there again, so the pair cannot reach behind it
  rcases List.sublist_cons_iff.1 h with h | ⟨_, heq, h⟩
  · exact absurd (h.subset (by simp)) hback
  · cases heq
    exact absurd (List.singleton_sublist.1 h) hback

section Inserted

variable {t : ElementType}

/-- A conversion put before `x` is there in time for `x`. -/
theorem Coherent.dominates_before (hp : p.Coherent) (hx : x < p.size) :
    (p.splice .before x d t).Dominates p.size x := by
  obtain ⟨front, back, -, hs⟩ := hp.listAt_splice .before d t hx
  refine ⟨x, .refl, ?_⟩
  rw [homeAt_splice_size, hs]
  exact ((List.nil_sublist back).cons_cons x |>.cons_cons p.size).trans
    (List.sublist_append_right _ _)

/-- What is there in time for `x` is there in time for a conversion put before `x`. -/
theorem Coherent.dominates_input_before (hp : p.Coherent) (hx : x < p.size)
    (hd : p.Dominates d x) : (p.splice .before x d t).Dominates d p.size := by
  obtain ⟨w, hw, hsub⟩ := hd
  have hdlt := (hp.owned _ d (hsub.subset List.mem_cons_self)).1
  have hext := hp.extends_splice .before d t hx
  rcases Relation.ReflTransGen.cases_tail hw with rfl | ⟨v, hwv, hvx⟩
  · -- `d` stands before `x` in its own block
    have hhome := (hp.owned _ x (hsub.subset (by simp))).2
    obtain ⟨front, back, hl, hs⟩ := hp.listAt_splice .before d t hx
    refine ⟨p.size, .refl, ?_⟩
    rw [← hhome, hl] at hsub
    -- `x` is listed once, so what stands before it is in front of the conversion
    have hnd := hp.nodup (p.homeAt x)
    rw [hl] at hnd
    have hback : x ∉ back := (List.nodup_cons.1 (List.nodup_append.1 hnd).2.1).1
    have hfront := mem_front_of_pair_sublist hback hsub
    rw [homeAt_splice_of_lt hdlt, ← hhome, hs]
    exact (List.singleton_sublist.2 hfront).append ((List.nil_sublist _).cons_cons p.size)
  · -- something that encloses `x` stands after `d`, and encloses the conversion as well
    refine ⟨w, (hext.enclosesAll hwv).tail ?_, ?_⟩
    · obtain ⟨hv, -, hmem⟩ := hvx
      refine ⟨Nat.lt_of_lt_of_le hv hext.size_le, size_splice ▸ Nat.lt_succ_self _, ?_⟩
      rw [homeAt_splice_size, hext.nested v hv]
      exact hmem
    · rw [hext.home d hdlt]
      exact hsub.trans (hext.sublist _)

/-- What is converted right behind itself is there in time for the conversion. -/
theorem Coherent.dominates_input_after (hp : p.Coherent) (hd : d < p.size) :
    (p.splice .after d d t).Dominates d p.size := by
  obtain ⟨front, back, -, hs⟩ := hp.listAt_splice .after d t hd
  refine ⟨p.size, .refl, ?_⟩
  rw [homeAt_splice_of_lt hd, hs]
  exact ((List.nil_sublist back).cons_cons p.size |>.cons_cons d).trans
    (List.sublist_append_right _ _)

/-- A conversion right behind `d` is there in time for all that `d` is in time for. -/
theorem Coherent.dominates_after (hp : p.Coherent) (hd : p.Dominates d x) :
    (p.splice .after d d t).Dominates p.size x := by
  obtain ⟨w, hw, hsub⟩ := hd
  have hdlt := (hp.owned _ d (hsub.subset List.mem_cons_self)).1
  have hext := hp.extends_splice .after d t hdlt
  obtain ⟨front, back, hl, hs⟩ := hp.listAt_splice .after d t hdlt
  refine ⟨w, hext.enclosesAll hw, ?_⟩
  have hnd := hp.nodup (p.homeAt d)
  rw [hl] at hsub hnd
  -- the conversion stands right behind `d`, and so in front of all that did
  have hback := mem_back_of_pair_sublist hnd hsub
  rw [homeAt_splice_size, hs]
  exact ((List.singleton_sublist.2 hback).cons_cons p.size |>.cons d).trans
    (List.sublist_append_right _ _)

end Inserted

/-! ### Moves -/

/-- **What the rule of `u` may do.** -/
inductive Move (n : Nat) (u : StmtId) (p : Program) : Program → Prop
  /-- It types `u`. -/
  | own (t : VectorType) : Move n u p (p.retype u t)
  /-- A store gives its untyped slot the type of the value. -/
  | slot {slot value : StmtId} : p.instrAt u = .localStore slot value →
      (p.typeAt slot).isUnknown = true → Move n u p (p.retype slot (p.typeAt value))
  /-- A loop types the constants that bound it. -/
  | bound {first last bound : StmtId} {body : BlockId} : p.instrAt u = .rangeFor first last body →
      bound = first ∨ bound = last → (p.instrAt bound).isConst = true →
      Move n u p (p.retype bound (.scalar .i32))
  /-- It converts what serves as an operand of `u`, right before `u`. -/
  | before {o d : StmtId} (t : ElementType) : u < p.size → d < p.size →
      o ∈ (p.instrAt u).operands → p.Serves n u d o → Move n u p (p.splice .before u d t)
  /-- It converts an operand of `u` right behind that operand. -/
  | after {d : StmtId} (t : ElementType) : d < p.size → d ∈ (p.instrAt u).operands →
      Move n u p (p.splice .after d d t)
  /-- It points `u` at what serves as its operands. -/
  | redirect {i : Instr} : u < p.size → Redirected (p.Serves n u) (p.instrAt u) i →
      Move n u p (p.rewrite u i)

/-- What the rule of `u` may do, any number of times. -/
abbrev Moves (n : Nat) (u : StmtId) : Program → Program → Prop :=
  Relation.ReflTransGen (Move n u)

theorem Move.coherent (h : p.Move n u q) (hp : p.Coherent) : q.Coherent := by
  cases h with
  | own | slot | bound => exact hp.retype
  | before t hu => exact hp.splice hu
  | after t hd => exact hp.splice hd
  | redirect => exact hp.rewrite

theorem Move.extends (h : p.Move n u q) (hp : p.Coherent) : p.Extends q := by
  cases h with
  | own | slot | bound => exact hp.extends_retype
  | before t hu => exact hp.extends_splice _ _ t hu
  | after t hd => exact hp.extends_splice _ _ t hd
  | redirect hu hi => exact hp.extends_rewrite hu hi

end Program

end TensorKernel
