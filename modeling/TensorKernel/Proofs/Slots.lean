import TensorKernel.Proofs.Lasting
import TensorKernel.Proofs.Rest

/-!
# The first typed store wins

A slot without a type takes over the type of whatever is stored to it, until that is a type that is
known; then it keeps it, and everything that is stored later is converted. So the type of a slot can
be told from the stores alone: `Visit.stored?` is what a visit stores to a slot, `Visit.fill` what a
slot makes of it, and after any visits the slot has the type that it is filled with by them, one
after the other (`Course.typeAt_slot`).

What a slot is filled with is what the first store gives it that has a type to give
(`foldl_fill_of_unknown`). Stores before that one may change the width of the slot, but do not type
it.
-/

namespace TensorKernel

variable {ctx : CheckContext} {p : Program} {x : StmtId}

/-- A store that is its own value has the type of its place. -/
theorem Ruling.localStore_own_casts {config : Config} {τ : TypeMap} {u slot : StmtId} :
    (Ruling.localStore config τ u slot u).casts = 0 := by
  unfold Ruling.localStore
  split
  · rfl
  · simp [Ruling.store, ElementType.castsTo]

namespace Checker

open Program (Steps)

variable {order : List StmtId} {front back log : List Visit} {v w : Visit} {left : CheckState}
  {t t' : VectorType} {value : StmtId}

namespace Visit

/-- The type of the value that a visit stores to the slot `x`, if it does store to that slot. -/
def stored? (v : Visit) (x : StmtId) : Option VectorType :=
  match v.instr with
  | .localStore slot value => if slot = x then some (v.before.program.typeAt value) else none
  | _ => none

/-- What a visit makes of a slot of this type. -/
def fill (x : StmtId) (t : VectorType) (v : Visit) : VectorType :=
  if t.isUnknown then (v.stored? x).getD t else t

/-- The type that a visit has to give to the slot `x`: that of a value that is known. -/
def gives (v : Visit) (x : StmtId) : Option VectorType := (v.stored? x).filter (!·.isUnknown)

theorem stored?_eq_some_iff : v.stored? x = some t ↔
    ∃ value, v.instr = .localStore x value ∧ v.before.program.typeAt value = t := by
  unfold stored?
  constructor
  · -- only a store to this very slot counts
    intro h
    split at h
    · next slot value hi =>
      split at h
      · next hslot =>
        subst hslot
        exact ⟨value, hi, Option.some.inj h⟩
      · cases h
    · cases h
  · rintro ⟨value, hi, rfl⟩
    rw [hi]
    exact if_pos rfl

end Visit

/-! ### What stores make of a slot -/

theorem foldl_fill_of_known (ht : t.isUnknown = false) : log.foldl (Visit.fill x) t = t := by
  induction log with
  | nil => rfl
  | cons v log ih =>
    rw [List.foldl_cons, Visit.fill, ht]
    exact ih

/-- **The first store that has a type to give** types the slot. -/
theorem foldl_fill_of_unknown (ht : t.isUnknown = true) :
    (∀ t', log.findSome? (·.gives x) = some t' → log.foldl (Visit.fill x) t = t') ∧
      ((log.foldl (Visit.fill x) t).isUnknown = true ↔ ∀ v ∈ log, v.gives x = none) := by
  induction log generalizing t with
  | nil => exact ⟨fun t' h => (nomatch h), iff_of_true ht fun v hv => (nomatch hv)⟩
  | cons v log ih =>
    rw [List.foldl_cons, List.findSome?_cons, List.forall_mem_cons, Visit.fill, if_pos ht]
    cases hgives : v.gives x with
    | some t₁ =>
      -- the slot is typed, and stays so
      obtain ⟨hstored, hknown⟩ := Option.filter_eq_some_iff.1 hgives
      rw [Bool.not_eq_true'] at hknown
      rw [hstored, Option.getD_some, foldl_fill_of_known hknown]
      refine ⟨fun t' h => Option.some.inj h, ?_⟩
      rw [hknown]
      exact iff_of_false Bool.false_ne_true fun h => nomatch h.1
    | none =>
      -- whatever is stored has no type either
      have hstored : ((v.stored? x).getD t).isUnknown = true := by
        cases hstored : v.stored? x with
        | none => exact ht
        | some t₁ => simpa [Visit.gives, hstored] using hgives
      obtain ⟨hfirst, hnone⟩ := ih hstored
      exact ⟨hfirst, hnone.trans (and_iff_right rfl).symm⟩

/-! ### The type of a slot -/

/-- A store that is its own value is not pointed elsewhere. -/
theorem Trace.instrAt_own_store (h : Trace ctx p order (front ++ v :: back) left) (hp : p.Coherent)
    (hclosed : p.Closed) (hi : v.instr = .localStore x v.id) :
    v.after.program.instrAt v.id = .localStore x v.id := by
  have hobeys := h.obeys hp hclosed
  have hredirected := h.redirected hp hclosed
  rw [hi] at hobeys hredirected
  -- no conversion is counted, so nothing is new
  have hcasts : v.after.casts = v.before.casts + 0 :=
    hobeys.progress.casts.trans (congrArg _ Ruling.localStore_own_casts)
  have hbalance := (balanced ctx.config).rule ctx.storage ctx.signature _ _ _ _
    h.visits.of_append.2.2
  have hsize : v.after.program.size = v.before.program.size := by omega
  obtain ⟨value', hafter, rfl | hstands⟩ := hredirected.of_localStore
  · exact hafter
  · have hlt := hstands.lt_size (hsize ▸ h.comes.lt_size)
    rwa [hstands.eq_of_lt (hsize ▸ hlt)] at hafter

section Slot

variable (hx : x < p.size) (hslot : p.instrAt x = .alloca)
include hx hslot

/-- A store is no slot. -/
theorem Visit.Comes.ne_slot (h : w.Comes ctx p front) (hi : w.instr = .localStore x value) :
    x ≠ w.id := by
  rintro rfl
  rw [h.intact hx, hslot] at hi
  cases hi

variable (hp : p.Coherent) (hclosed : p.Closed)
include hp hclosed

/-- A visit of something else than a store to the slot leaves its type. -/
theorem Visit.Comes.typeAt_slot_of_not_stored (h : w.Comes ctx p front)
    (hstored : w.stored? x = none) :
    w.after.program.typeAt x = w.before.program.typeAt x := by
  have herases := Steps.erases (h.steps hp hclosed) hp
  have hlt := Nat.lt_of_lt_of_le hx herases.extends'.size_le
  by_cases hxw : x = w.id
  · -- the rule of a slot sets nothing
    subst hxw
    refine h.typeAt_self hp hclosed ?_
    rw [h.intact hx, hslot]
    rfl
  rcases (h.passes hp hclosed).typeAt_eq_or_assigns (h.coherent hp hclosed) h.lt_size hlt hxw with
    hsame | ⟨value, hi, -⟩ | ⟨_, _, _, -, -, hconst⟩
  · exact hsame
  · rw [Visit.stored?_eq_some_iff.2 ⟨value, hi, rfl⟩] at hstored
    cases hstored
  · -- a slot is no constant
    rw [(herases.redirected x hx).isConst_eq, hslot] at hconst
    cases hconst

/-- **What a visit makes of a slot**: it is filled if it has no type and is stored to. -/
theorem Visit.Comes.typeAt_slot (h : w.Comes ctx p front) :
    w.after.program.typeAt x = w.fill x (w.before.program.typeAt x) := by
  rw [Visit.fill]
  cases hstored : w.stored? x with
  | none =>
    rw [h.typeAt_slot_of_not_stored hx hslot hp hclosed hstored, Option.getD_none, ite_self]
  | some t =>
    obtain ⟨value, hi, rfl⟩ := Visit.stored?_eq_some_iff.1 hstored
    obtain ⟨answer, hobeys⟩ := h.obeys hp hclosed
    have hext := (Steps.erases (h.steps hp hclosed) hp).extends'
    have hne := h.ne_slot hx hslot hi
    rw [hobeys.progress.types x (Nat.lt_of_lt_of_le hx hext.size_le), hi, ruling]
    cases hunknown : (w.before.program.typeAt x).isUnknown with
    | true =>
      -- the slot is typed first, and then the store
      rw [Ruling.localStore_sets_of_unknown hunknown, if_pos rfl, Option.getD_some, Ruling.typed,
        Ruling.typed, Ruling.typed, Function.update_of_ne hne, Function.update_self]
    | false =>
      rw [Ruling.localStore_sets hunknown, if_neg Bool.false_ne_true, Ruling.typed, Ruling.typed,
        Function.update_of_ne hne]

/-- **After any visits a slot has the type that it is filled with.** -/
theorem Course.typeAt_slot (h : Course ctx p order (front ++ back) left) :
    (programAfter p front).typeAt x = front.foldl (Visit.fill x) (p.typeAt x) := by
  -- on the visits, from the last one
  induction front using List.reverseRecOn generalizing back with
  | nil => rfl
  | append_singleton front w ih =>
    rw [List.append_assoc] at h
    have hcomes : w.Comes ctx p front := h.comes
    have hbefore : w.before.program = programAfter p front := hcomes.front.program_eq
    rw [programAfter_append_singleton, hcomes.typeAt_slot hx hslot hp hclosed, hbefore, ih h,
      List.foldl_append]
    rfl

/-! ### The stores to a slot -/

variable (h : Trace ctx p order (front ++ v :: back) left) (hi : v.instr = .localStore x value)
include h hi

/-- A store has the type of its slot. -/
theorem Trace.typeAt_store :
    v.after.program.typeAt v.id = v.after.program.typeAt x := by
  have hobeys := h.obeys hp hclosed
  have hext := (Steps.erases (h.comes.steps hp hclosed) hp).extends'
  have hne := h.comes.ne_slot hx hslot hi
  rw [hobeys.progress.types v.id h.comes.lt_size,
    hobeys.progress.types x (Nat.lt_of_lt_of_le hx hext.size_le), hi, ruling]
  cases hunknown : (v.before.program.typeAt x).isUnknown with
  | true => simp [Ruling.localStore_sets_of_unknown hunknown, Ruling.typed, hne]
  | false => simp [Ruling.localStore_sets hunknown, Ruling.typed, hne]

/-- **What is stored has the element type of the slot.** -/
theorem Trace.typeAt_stored : ∃ value', v.after.program.instrAt v.id = .localStore x value' ∧
    (v.after.program.typeAt value').elem = (v.after.program.typeAt x).elem := by
  have htype := h.typeAt_store hx hslot hp hclosed hi
  by_cases hself : value = v.id
  · -- a store that is its own value is not pointed elsewhere
    subst hself
    exact ⟨v.id, h.instrAt_own_store hp hclosed hi, by rw [htype]⟩
  · have hredirected := h.redirected hp hclosed
    rw [hi] at hredirected
    obtain ⟨value', hafter, -⟩ := hredirected.of_localStore
    have hnot : v.id ∉ v.instr.operands := by
      rw [hi]
      simp [Instr.operands, Ne.symm hself, (h.comes.ne_slot hx hslot hi).symm]
    have hmatched := (h.revises hp hclosed).matched rfl hnot
    rw [hafter] at hmatched
    exact ⟨value', hafter, hmatched.trans (by rw [htype])⟩

end Slot

end Checker

namespace Program

open Checker

/-- **The first typed store wins.** A check of a tree comes to an end. If it passes, it has visited
what can be reached in program order, each instruction once. A slot that had no type then has the
type that the value of the first store to it had when that was visited, among the stores whose value
was of a known element type; it has none if there is no such store. A slot that had a type has it
still. And whenever a store to the slot was visited, it has the type of the slot, and what it stores
has the element type of the slot; if that is known, it is the one that the slot has in the end. -/
theorem typecheck_fills (hp : p.InRange ctx.storage) (htree : p.Tree) :
    ∃ order o, p.reachable = .ok order ∧ order.Nodup ∧ p.typecheck ctx = .ok o ∧
      ∀ report, o.result = .ok report → ∃ log left, Trace ctx p order log left ∧
        o.program = left.program ∧ ∀ x < p.size, p.instrAt x = .alloca →
          ((p.typeAt x).isUnknown = true →
            (∀ t, log.findSome? (·.gives x) = some t → o.program.typeAt x = t) ∧
            ((o.program.typeAt x).isUnknown = true ↔ ∀ v ∈ log, v.gives x = none)) ∧
          ((p.typeAt x).isUnknown = false → o.program.typeAt x = p.typeAt x) ∧
          ∀ v ∈ log, ∀ value, v.instr = .localStore x value →
            v.after.program.typeAt v.id = v.after.program.typeAt x ∧
            (∃ value', v.after.program.instrAt v.id = .localStore x value' ∧
              (v.after.program.typeAt value').elem = (v.after.program.typeAt x).elem) ∧
            ((v.after.program.typeAt x).isUnknown = false →
              o.program.typeAt x = v.after.program.typeAt x) := by
  obtain ⟨order, o, horder, hnodup, ho, hpassed⟩ := exists_check hp htree
  refine ⟨order, o, horder, hnodup, ho, ?_⟩
  intro report hok
  obtain ⟨log, left, htrace, hprogram⟩ := hpassed report hok
  refine ⟨log, left, htrace, hprogram, ?_⟩
  intro x hx hslot
  -- the stores fill the slot, one after the other
  have hfilled : o.program.typeAt x = log.foldl (Visit.fill x) (p.typeAt x) := by
    have hcourse : Course ctx p order (log ++ []) left :=
      (List.append_nil log).symm ▸ .passed htrace
    rw [hprogram, htrace.visits.program_eq]
    exact hcourse.typeAt_slot hx hslot hp.coherent hp.closed
  refine ⟨?_, ?_, ?_⟩
  · intro hunknown
    rw [hfilled]
    exact foldl_fill_of_unknown hunknown
  · intro hknown
    rw [hfilled]
    exact foldl_fill_of_known hknown
  · intro v hv value hi
    -- the store finds the slot typed, or types it, and agrees with it from there on
    obtain ⟨front, back, rfl⟩ := List.append_of_mem hv
    refine ⟨htrace.typeAt_store hx hslot hp.coherent hp.closed hi,
      htrace.typeAt_stored hx hslot hp.coherent hp.closed hi, ?_⟩
    intro hknown
    rw [hprogram]
    exact htrace.typeAt_left hp.coherent hp.closed hnodup hx (.inr (hslot ▸ rfl)) (hslot ▸ rfl)
      hknown

/-- A slot that is stored to in a loop first, and once more behind it. -/
def filledProgram : Program where
  stmts := #[⟨0, .dummy, .scalar .unknown, .alloca, root⟩,
    ⟨1, .dummy, .scalar .f32, .const (.f32 0), root⟩,
    ⟨2, .dummy, .scalar .i32, .const (.i32 1), root⟩,
    ⟨3, .dummy, .scalar .unknown, .rangeFor 2 2 1, root⟩,
    ⟨4, .dummy, .scalar .unknown, .localStore 0 1, 1⟩,
    ⟨5, .dummy, .scalar .unknown, .localStore 0 2, root⟩]
  blocks := #[⟨[0, 1, 2, 3, 5], none⟩, ⟨[4], some 3⟩]

/-- The slot takes over the float, and the integer is converted. -/
theorem typecheck_fills_loop :
    filledProgram.InRange .empty ∧ filledProgram.Tree ∧
      ∃ o report log left, filledProgram.typecheck ⟨{}, {}, .empty⟩ = .ok o ∧
        o.result = .ok report ∧ report.casts = 1 ∧
        Trace ⟨{}, {}, .empty⟩ filledProgram [0, 1, 2, 3, 4, 5] log left ∧
        o.program = left.program ∧ log.findSome? (·.gives 0) = some (.scalar .f32) ∧
        o.program.typeAt 0 = .scalar .f32 ∧
        ∀ v ∈ log, ∀ value, v.instr = .localStore 0 value →
          v.after.program.typeAt v.id = v.after.program.typeAt 0 ∧
          (∃ value', v.after.program.instrAt v.id = .localStore 0 value' ∧
            (v.after.program.typeAt value').elem = (v.after.program.typeAt 0).elem) ∧
          ((v.after.program.typeAt 0).isUnknown = false →
            o.program.typeAt 0 = v.after.program.typeAt 0) := by
  have hbuild : build [.emit .alloca, .emit (.const (.f32 0)), .emit (.const (.i32 1)),
      .rangeFor 2 2 [.emit (.localStore 0 1)], .emit (.localStore 0 2)] =
      .ok (filledProgram, [0, 1, 2, 3, 4, 3, 5]) := by decide +kernel
  have hp : filledProgram.InRange .empty :=
    inRange_of_build hbuild Storage.linked_empty (by decide) (by decide)
  have htree : filledProgram.Tree :=
    build_tree hbuild ⟨rfl, rfl, rfl, ⟨rfl, trivial⟩, rfl, trivial⟩
  refine ⟨hp, htree, ?_⟩
  have hcasts : (filledProgram.typecheck ⟨{}, {}, .empty⟩).map
      (fun o => o.result.map Report.casts) = .ok (.ok 1) := by decide +kernel
  have htype : (filledProgram.typecheck ⟨{}, {}, .empty⟩).map (fun o => o.program.typeAt 0) =
      .ok (.scalar .f32) := by decide +kernel
  have horder : filledProgram.reachable = .ok [0, 1, 2, 3, 4, 5] := by decide
  obtain ⟨o, report, ho, hok, hcount⟩ := exists_report hcasts
  obtain ⟨order, o', horder', -, ho', hfills⟩ :=
    @typecheck_fills ⟨{}, {}, .empty⟩ filledProgram hp htree
  cases horder.symm.trans horder'
  cases ho.symm.trans ho'
  rw [ho] at htype
  have htype : o.program.typeAt 0 = .scalar .f32 := Except.ok.inj htype
  obtain ⟨log, left, htrace, hprogram, hslots⟩ := hfills report hok
  obtain ⟨hunknown, -, hstores⟩ := hslots 0 (by decide) rfl
  obtain ⟨hfirst, hnone⟩ := hunknown rfl
  refine ⟨o, report, log, left, ho, hok, hcount, htrace, hprogram, ?_, htype, hstores⟩
  -- the type at the end tells what the first store gave
  cases hgives : log.findSome? (·.gives 0) with
  | none =>
    have hunknown := hnone.2 (List.findSome?_eq_none_iff.1 hgives)
    rw [htype] at hunknown
    cases hunknown
  | some t => rw [← htype, hfirst t hgives]

end Program

end TensorKernel
