import TensorKernel.Proofs.Frame
import TensorKernel.Proofs.Revision

/-!
# The ledger of conversions

Every conversion that a rule inserts is accounted for. `Ledger p q` is the account, kept from edit
to edit (`Ledger.edit`): what is read in `q` is what was read in `p`, and each conversion once.

Beside that, each conversion stands where it was put (`Anchored`), and why it was inserted decides
where that is. If it coerces an operand of a division (`Program.Coerces`), it stands right behind
this operand; if it does not, it stands right before the instruction that it was made for. Whether
an operand is of the class of types at which a division computes depends on the type that it had
when the division was visited, which may be another one in the end; so `Anchored` names the program
`start` that the rule found. Later insertions come between a conversion and its anchor only if they
are conversions themselves, so its place is told by the list of its block without the other
conversions (`neighbours`).
-/

namespace TensorKernel

namespace Program

variable {config : Config} {n : Nat} {p q r start : Program} {u x c d o : StmtId} {b : BlockId}
  {i : Instr} {t : ElementType} {side : Side} {anchor : StmtId}

/-! ### What is read -/

/-- What is read, once for each operand of each instruction. -/
def reads (p : Program) : List StmtId := (List.range p.size).flatMap fun x => (p.instrAt x).operands

theorem mem_reads : d ∈ p.reads ↔ ∃ x < p.size, d ∈ (p.instrAt x).operands := by
  simp [reads, List.mem_flatMap]

theorem reads_congr (hsize : q.size = p.size) (hinstr : q.instrAt = p.instrAt) :
    q.reads = p.reads := by
  rw [reads, reads, hsize, hinstr]

/-- If one part of a flattened list changes, the whole changes as this part does. -/
private theorem flatMap_perm {α β : Type} {l : List α} {f g : α → List β} {a : α} {y z : β}
    (hl : l.Nodup) (ha : a ∈ l) (hf : ∀ x ∈ l, x ≠ a → g x = f x)
    (h : (y :: f a).Perm (z :: g a)) : (y :: l.flatMap f).Perm (z :: l.flatMap g) := by
  obtain ⟨front, back, rfl⟩ := List.append_of_mem ha
  have hnot := List.nodup_middle.1 hl
  rw [List.nodup_cons, List.mem_append, not_or] at hnot
  obtain ⟨⟨hfront, hback⟩, -⟩ := hnot
  have hfront' : front.flatMap g = front.flatMap f := by
    refine List.flatMap_congr fun x hx => hf x (by simp [hx]) ?_
    rintro rfl
    exact hfront hx
  have hback' : back.flatMap g = back.flatMap f := by
    refine List.flatMap_congr fun x hx => hf x (by simp [hx]) ?_
    rintro rfl
    exact hback hx
  rw [List.flatMap_append, List.flatMap_append, List.flatMap_cons, List.flatMap_cons, hfront',
    hback']
  -- the part that changes is moved to the front, where it is compared
  have hmove : ∀ (w : β) (part : List β),
      (w :: (front.flatMap f ++ (part ++ back.flatMap f))).Perm
        ((w :: part) ++ (front.flatMap f ++ back.flatMap f)) :=
    fun w part => (List.perm_append_comm_assoc _ _ _).cons w
  exact (hmove y (f a)).trans ((h.append_right _).trans (hmove z (g a)).symm)

theorem reads_rewrite (hu : u < p.size) {y z : StmtId}
    (h : (y :: (p.instrAt u).operands).Perm (z :: i.operands)) :
    (y :: p.reads).Perm (z :: (p.rewrite u i).reads) := by
  unfold reads
  rw [size_rewrite]
  refine flatMap_perm List.nodup_range (List.mem_range.2 hu) ?_ ?_
  · intro x _ hxu
    rw [instrAt_rewrite hu, if_neg hxu]
  · rwa [instrAt_rewrite_self hu]

theorem reads_splice : (p.splice side anchor d t).reads = p.reads ++ [d] := by
  have hold : ∀ x ∈ List.range p.size,
      ((p.splice side anchor d t).instrAt x).operands = (p.instrAt x).operands := by
    intro x hx
    rw [instrAt_splice_of_lt (List.mem_range.1 hx)]
  rw [reads, size_splice, List.range_succ, List.flatMap_append, List.flatMap_congr hold,
    List.flatMap_singleton, instrAt_splice_size]
  rfl

section Insertion

theorem size_insertion : ((p.splice side anchor d t).rewrite u i).size = p.size + 1 := by
  rw [size_rewrite, size_splice]

/-- What becomes of an instruction when a conversion is inserted and `u` is pointed at it. -/
theorem instrAt_insertion (hu : u < p.size) (hx : x < p.size) :
    ((p.splice side anchor d t).rewrite u i).instrAt x = if x = u then i else p.instrAt x := by
  rw [instrAt_rewrite (size_splice ▸ Nat.lt_succ_of_lt hu), instrAt_splice_of_lt hx]

theorem instrAt_insertion_new (hu : u < p.size) :
    ((p.splice side anchor d t).rewrite u i).instrAt p.size = .unary (.cast t true) d := by
  rw [instrAt_rewrite (size_splice ▸ Nat.lt_succ_of_lt hu), if_neg (Nat.ne_of_gt hu),
    instrAt_splice_size]

theorem instrAt_insertion_self (hswap : Swaps d p.size (p.instrAt u) i) :
    ((p.splice side anchor d t).rewrite u i).instrAt u = i := by
  rw [instrAt_insertion (lt_size_of_swaps hswap) (lt_size_of_swaps hswap), if_pos rfl]

/-- A new conversion has the span of its anchor. -/
theorem spanAt_insertion (ha : anchor < p.size) :
    ((p.splice side anchor d t).rewrite u i).spanAt p.size =
      ((p.splice side anchor d t).rewrite u i).spanAt anchor := by
  rw [spanAt_rewrite, spanAt_rewrite, spanAt, spanAt, stmtAt_splice_size, stmtAt_splice_of_lt ha]
  rfl

/-- **An insertion adds one reading**, that of the conversion. -/
theorem reads_insertion (hswap : Swaps d p.size (p.instrAt u) i) :
    ((p.splice side anchor d t).rewrite u i).reads.Perm (p.reads ++ [p.size]) := by
  have hu := lt_size_of_swaps hswap
  have hu' : u < (p.splice side anchor d t).size := size_splice ▸ Nat.lt_succ_of_lt hu
  have hinstr : (p.splice side anchor d t).instrAt u = p.instrAt u := instrAt_splice_of_lt hu
  have hperm := hswap.operands_perm
  rw [← hinstr] at hperm
  -- the reading of `d` that the conversion adds makes up for the one that `u` has given up
  have hreads := reads_rewrite hu' hperm
  rw [reads_splice] at hreads
  have hcomm : (p.size :: (p.reads ++ [d])).Perm (d :: (p.reads ++ [p.size])) := by
    calc (p.size :: (p.reads ++ [d])).Perm (p.size :: d :: p.reads) :=
          (List.perm_append_singleton d p.reads).cons _
      _ |>.Perm (d :: p.size :: p.reads) := List.Perm.swap ..
      _ |>.Perm (d :: (p.reads ++ [p.size])) := (List.perm_append_singleton _ _).symm.cons _
  exact (List.perm_cons d).1 (hreads.symm.trans hcomm)

/-! ### Where conversions stand -/

/-- The block of `c` without the conversions from number `n` on, but with `c`. -/
def neighbours (n : Nat) (q : Program) (c : StmtId) : List StmtId :=
  (q.listAt (q.homeAt c)).filter fun x => x < n ∨ x = c

/-- `u` reads `c`, if need be seen through further conversions. -/
def Feeds (n : Nat) (q : Program) (c u : StmtId) : Prop :=
  ∃ e ∈ (q.instrAt u).operands, q.StandsFor n e c

/-- **Where a conversion was put** by the rule of `u`, on its way from `start`. What coerces an
operand of a division stands right behind that operand and has its span. Every other conversion
stands right before `u`, and has the span of `u`. -/
inductive Anchored (config : Config) (p : Program) (u : StmtId) (start q : Program) (c : StmtId) :
    Prop
  | before {t : ElementType} {d : StmtId} : u < p.size → q.Feeds p.size c u →
      q.instrAt c = .unary (.cast t true) d → ¬ start.Coerces config u t d →
      q.spanAt c = q.spanAt u → [c, u] <:+: q.neighbours p.size c → Anchored config p u start q c
  | after {t : ElementType} {d : StmtId} : u < p.size → q.Feeds p.size c u →
      q.instrAt c = .unary (.cast t true) d → start.Coerces config u t d →
      start.instrAt u = p.instrAt u → d < p.size → q.spanAt c = q.spanAt d →
      [d, c] <:+: q.neighbours p.size c → Anchored config p u start q c

/-- What is told apart from all new instructions is listed as before. -/
theorem Extends.filter_listAt (h : q.Extends r) {keep : StmtId → Bool}
    (hkeep : ∀ x, keep x = true → x < q.size) (b : BlockId) :
    (r.listAt b).filter keep = (q.listAt b).filter keep := by
  rw [← h.list b, List.filter_filter]
  refine List.filter_congr fun x _ => ?_
  cases hx : keep x with
  | false => rfl
  | true => rw [decide_eq_true (hkeep x hx), Bool.and_self]

theorem Extends.neighbours_eq (h : q.Extends r) (hn : n ≤ q.size) (hc : c < q.size) :
    r.neighbours n c = q.neighbours n c := by
  unfold neighbours
  rw [h.home c hc]
  refine h.filter_listAt (fun x hx => ?_) _
  rcases of_decide_eq_true hx with hlt | rfl
  · exact Nat.lt_of_lt_of_le hlt hn
  · exact hc

theorem neighbours_rewrite : (p.rewrite u i).neighbours n c = p.neighbours n c := by
  rw [neighbours, neighbours, listAt_rewrite, homeAt_rewrite]

/-- A new conversion stands right beside its anchor. -/
theorem Coherent.neighbours_splice (hp : p.Coherent) (hn : n ≤ p.size) (ha : anchor < n) :
    side.around anchor p.size <:+: (p.splice side anchor d t).neighbours n p.size := by
  obtain ⟨front, back, -, hs⟩ := hp.listAt_splice side d t (Nat.lt_of_lt_of_le ha hn)
  have hkeep : (side.around anchor p.size).filter (fun x => x < n ∨ x = p.size) =
      side.around anchor p.size := by
    refine List.filter_eq_self.2 fun x hx => ?_
    -- both the anchor and the conversion are kept
    cases side <;>
    · simp only [Side.around, List.mem_cons, List.not_mem_nil, or_false] at hx
      rcases hx with rfl | rfl <;> simp [ha]
  unfold neighbours
  rw [homeAt_splice_size, hs, List.filter_append, List.filter_append, hkeep]
  exact List.infix_append' _ _ _

/-- What an instruction reads is still read, if need be seen through a new conversion. -/
theorem Edit.feeds (h : Edit config u start q r) (hq : q.Coherent) (hn : n ≤ q.size) {v : StmtId}
    (hc : q.Feeds n c v) : r.Feeds n c v := by
  obtain ⟨e, he, hstands⟩ := hc
  have hext := h.extension hq
  -- what reads something is there before the edit
  have hv : v < q.size := by
    apply lt_size_of_instrAt_ne
    intro halloca
    rw [halloca] at he
    cases he
  -- where a conversion is inserted, what it converts may be read through it
  have hinsert : ∀ {side anchor d t i}, q.Extends ((q.splice side anchor d t).rewrite u i) →
      Swaps d q.size (q.instrAt u) i → ((q.splice side anchor d t).rewrite u i).Feeds n c v := by
    intro side anchor d t i hext hswap
    have hu := lt_size_of_swaps hswap
    have hstands' := hext.standsFor hstands
    unfold Feeds
    rw [instrAt_insertion hu hv]
    split
    · next hvu =>
      subst hvu
      rcases hswap.operand_cases he with hmem | rfl
      · -- what `v` reads for `c` is among what it still reads, or it is what was converted
        exact ⟨e, hmem, hstands'⟩
      · exact ⟨q.size, hswap.mem_operands_new,
          .cast hn (instrAt_insertion_new hu) hstands'⟩
    · exact ⟨e, he, hstands'⟩
  cases h with
  | types htypes => exact ⟨e, by rwa [htypes.instr_eq], hext.standsFor hstands⟩
  | @lower op lhs rhs hi =>
    have hu : u < q.size := lt_size_of_instrAt_ne (by rw [hi]; simp)
    refine ⟨e, ?_, hext.standsFor hstands⟩
    -- a division that becomes a plain one reads what it read
    rw [instrAt_rewrite hu]
    split
    · next hvu =>
      subst hvu
      rwa [hi] at he
    · exact he
  | before t _ hswap => exact hinsert hext hswap
  | after t _ _ hswap => exact hinsert hext hswap

namespace Anchored

variable {v : StmtId} {found : Program}

/-- What was put somewhere stays there, whatever is edited afterwards. -/
theorem edit (h : p.Anchored config v found q c) (hedit : Edit config u start q r)
    (hq : q.Coherent) (hn : p.size ≤ q.size) (hc : c < q.size) :
    p.Anchored config v found r c := by
  have hext := hedit.extension hq
  have hspan : ∀ x < p.size, r.spanAt x = q.spanAt x := fun x hx =>
    hext.span x (Nat.lt_of_lt_of_le hx hn)
  have hcast : ∀ {t d}, q.instrAt c = .unary (.cast t true) d →
      r.instrAt c = .unary (.cast t true) d := fun hi =>
    (hext.cast c (Instr.isValueCast_iff.2 ⟨_, _, hi⟩)).trans hi
  cases h with
  -- the edit of another rule, or another edit of this one, moves neither `c` nor its anchor
  | before hv hfeeds hi hplain hs hnext =>
    refine .before hv (hedit.feeds hq hn hfeeds) (hcast hi) hplain ?_ ?_
    · rw [hext.span c hc, hspan v hv, hs]
    · rwa [hext.neighbours_eq hn hc]
  | @after t d hv hfeeds hi hcoerces hdivision hd hs hnext =>
    refine .after hv (hedit.feeds hq hn hfeeds) (hcast hi) hcoerces hdivision hd ?_ ?_
    · rw [hext.span c hc, hspan d hd, hs]
    · rwa [hext.neighbours_eq hn hc]

theorem edits (h : p.Anchored config v found q c) (hedits : Edits config u start q r)
    (hq : q.Coherent) (hn : p.size ≤ q.size) (hc : c < q.size) :
    p.Anchored config v found r c := by
  induction hedits with
  | refl => exact h
  | tail hedits hedit ih =>
    have hle := (Edits.extension hedits hq).size_le
    exact ih.edit hedit (Edits.coherent hedits hq) (hn.trans hle) (Nat.lt_of_lt_of_le hc hle)

/-- A conversion stands in the block of an instruction of `p`. -/
theorem exists_home (h : p.Anchored config v found q c) (hq : q.Coherent) :
    ∃ x < p.size, q.homeAt c = q.homeAt x := by
  have hmem : ∀ {x}, x ∈ q.neighbours p.size c → q.homeAt c = q.homeAt x := fun hx =>
    (hq.owned _ _ (List.mem_filter.1 hx).1).2.symm
  cases h with
  | before hv _ _ _ _ hnext => exact ⟨v, hv, hmem (hnext.subset (by simp))⟩
  | @after _ d _ _ _ _ _ hd _ hnext => exact ⟨d, hd, hmem (hnext.subset List.mem_cons_self)⟩

end Anchored

/-- Only original instructions are pointed elsewhere. -/
theorem Extends.lt_of_swaps (h : p.Extends q) {e : StmtId} (hswap : Swaps d e (q.instrAt u) i) :
    u < p.size := by
  by_contra hge
  -- the others are conversions, and those are left alone
  have hcast := h.fresh u (Nat.le_of_not_lt hge) (lt_size_of_swaps hswap)
  rw [hswap.not_isValueCast] at hcast
  cases hcast

/-- **A new conversion is where its edit has put it.** A division that is coerced is one that `p`
has. -/
theorem Edit.anchored (h : Edit config u start q r) (hp : p.Closed) (hext : p.Extends q)
    (hq : q.Coherent) (hc : q.size ≤ c) (hlt : c < r.size)
    (hdiv : ∀ op lhs rhs, start.instrAt u = .binary op lhs rhs →
      (op.lowering? config).isSome = true → p.instrAt u = .binary op lhs rhs) :
    p.Anchored config u start r c := by
  have hn := hext.size_le
  -- the edit has inserted one conversion at most
  have hnew : ∀ {side anchor d t i}, c < ((q.splice side anchor d t).rewrite u i).size →
      c = q.size := by
    intro side anchor d t i hlt
    rw [size_insertion] at hlt
    exact Nat.le_antisymm (Nat.lt_succ_iff.1 hlt) hc
  cases h with
  | types htypes => exact absurd (htypes.size_eq ▸ hlt) (Nat.not_lt.2 hc)
  | lower => exact absurd (size_rewrite (p := q) ▸ hlt) (Nat.not_lt.2 hc)
  | @before d i t hd hswap _ _ hplain =>
    obtain rfl := hnew hlt
    have hu := hext.lt_of_swaps hswap
    have huq := lt_size_of_swaps hswap
    -- `u` reads the conversion, which stands right before it
    refine .before hu ⟨q.size, ?_, .refl _⟩ (instrAt_insertion_new huq) hplain ?_ ?_
    · rw [instrAt_insertion_self hswap]
      exact hswap.mem_operands_new
    · exact spanAt_insertion huq
    · rw [neighbours_rewrite]
      show Side.before.around u q.size <:+: _
      exact hq.neighbours_splice hn hu
  | @after d i t hd hdstart hswap hvalue hcoerces =>
    obtain rfl := hnew hlt
    obtain ⟨op, lhs, rhs, accepts, hi, hlow, hside, hrefused⟩ := hcoerces
    have huq := lt_size_of_swaps hswap
    have hu := hext.lt_of_swaps hswap
    have hip := hdiv op lhs rhs hi (hlow ▸ rfl)
    -- the operand is one of the division as it was in `p`
    have hdp : d < p.size := by
      refine hp.operands u hu d ?_
      rw [hip]
      rcases hside with rfl | rfl
      · exact List.mem_cons_self
      · exact List.mem_cons_of_mem _ List.mem_cons_self
    -- the other operand may be converted as well, but each coercion stands behind its own
    refine .after hu ⟨q.size, ?_, .refl _⟩ (instrAt_insertion_new huq)
      ⟨op, lhs, rhs, accepts, hi, hlow, hside, hrefused⟩ (hi.trans hip.symm) hdp ?_ ?_
    · rw [instrAt_insertion_self hswap]
      exact hswap.mem_operands_new
    · exact spanAt_insertion hd
    · rw [neighbours_rewrite]
      show Side.after.around d q.size <:+: _
      exact hq.neighbours_splice hn hdp

/-- **Every conversion that a rule has inserted** is where it was put, when the rule is done. -/
theorem Edits.anchored (h : Edits config u start start q) (hp : p.Closed) (hext : p.Extends start)
    (hstart : start.Coherent)
    (hdiv : ∀ op lhs rhs, start.instrAt u = .binary op lhs rhs →
      (op.lowering? config).isSome = true → p.instrAt u = .binary op lhs rhs) :
    ∀ c, start.size ≤ c → c < q.size → p.Anchored config u start q c := by
  induction h with
  | refl => exact fun c hc hlt => absurd hc (Nat.not_le.2 hlt)
  | @tail q r hedits hedit ih =>
    intro c hc hlt
    have hq := Edits.coherent hedits hstart
    have hext' := hext.trans (Edits.extension hedits hstart)
    rcases Nat.lt_or_ge c q.size with hold | hnew
    · -- those that earlier edits of the rule have inserted, and the one of this edit
      exact (ih c hc hold).edit hedit hq hext'.size_le hold
    · exact hedit.anchored hp hext' hq hnew hlt hdiv

/-! ### The account -/

/-- **The account of the conversions that `q` has beside the instructions of `p`.** -/
structure Ledger (p q : Program) : Prop where
  coherent : q.Coherent
  extends' : p.Extends q
  /-- What is read is what was read, and every conversion once. -/
  reads_perm : q.reads.Perm (p.reads ++ List.range' p.size (q.size - p.size))

namespace Ledger

theorem refl (hp : p.Coherent) : p.Ledger p where
  coherent := hp
  extends' := .refl hp
  reads_perm := by
    rw [Nat.sub_self, List.range'_zero, List.append_nil]

/-- What is read after one insertion more. -/
private theorem reads_perm_succ (h : p.Ledger q) (hsize : r.size = q.size + 1)
    (hreads : r.reads.Perm (q.reads ++ [q.size])) :
    r.reads.Perm (p.reads ++ List.range' p.size (r.size - p.size)) := by
  have hle := h.extends'.size_le
  have hnext : r.size - p.size = q.size - p.size + 1 := by omega
  have hlast : p.size + (q.size - p.size) = q.size := by omega
  rw [hnext, List.range'_1_concat, hlast, ← List.append_assoc]
  exact hreads.trans (h.reads_perm.append_right _)

/-- **One edit more.** -/
theorem edit (h : p.Ledger q) (hedit : Edit config u start q r) : p.Ledger r := by
  refine ⟨hedit.coherent h.coherent, h.extends'.trans (hedit.extension h.coherent), ?_⟩
  cases hedit with
  | types htypes =>
    rw [reads_congr htypes.size_eq htypes.instr_eq, htypes.size_eq]
    exact h.reads_perm
  | @lower op lhs rhs hi =>
    have hu : u < q.size := lt_size_of_instrAt_ne (by rw [hi]; simp)
    -- the operands stay
    have hreads : ((0 : StmtId) :: q.reads).Perm
        (0 :: (q.rewrite u (.binary .div lhs rhs)).reads) :=
      reads_rewrite hu (by rw [hi]; exact List.Perm.refl _)
    rw [size_rewrite]
    exact ((List.perm_cons _).1 hreads).symm.trans h.reads_perm
  | before t hd hswap => exact h.reads_perm_succ size_insertion (reads_insertion hswap)
  | after t hd hdstart hswap => exact h.reads_perm_succ size_insertion (reads_insertion hswap)

theorem edits (h : p.Ledger q) (hedits : Edits config u start q r) : p.Ledger r := by
  induction hedits with
  | refl => exact h
  | tail _ hedit ih => exact ih.edit hedit

/-- **Every conversion is read once.** -/
theorem count_reads (h : p.Ledger q) (hp : p.Closed) (hc : p.size ≤ c) (hlt : c < q.size) :
    q.reads.count c = 1 := by
  have hold : p.reads.count c = 0 := by
    refine List.count_eq_zero.2 fun hmem => ?_
    obtain ⟨x, hx, hmem⟩ := mem_reads.1 hmem
    exact absurd (hp.operands x hx c hmem) (Nat.not_lt.2 hc)
  have hnodup : (List.range' p.size (q.size - p.size)).Nodup := List.nodup_range'
  have hmem : c ∈ List.range' p.size (q.size - p.size) := by
    rw [List.mem_range'_1, Nat.add_sub_cancel' h.extends'.size_le]
    exact ⟨hc, hlt⟩
  have hnew := List.count_eq_one_of_mem hnodup hmem
  rw [h.reads_perm.count_eq, List.count_append, hold, hnew]

end Ledger

end Insertion

end Program

end TensorKernel
