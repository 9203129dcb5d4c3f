import TensorKernel.Program

/-!
# What an instruction's line determines

Two instructions with the same line are the same instruction, but for what the line does not show:
the blocks nested in it, which of its two operands the single operand of a storage operation is, and
the bits of a constant behind their text (`Stmt.text_eq_iff`).

The proof reads a line from left to right. A reference, a number or a list in brackets has its end
where no digit follows (`Legible`), and so can be cancelled off the front of two equal texts. The
first word of an instruction's text contains no space (`Instr.verb`); it names the operator, and
with it the kind of instruction, since no two kinds have a first word in common
(`Instr.mnemonicOf_verb`). That is not seen from the kinds alone: the operators of five families are
printed bare, and `atomic_add` is told apart from `add` by its first letters only.
-/

namespace TensorKernel

section Legible

variable {α : Type} {write : α → String} {a b : α} {r r' : List Char}

/-- What may follow a number so that its end is seen: anything but a digit. -/
def Ended (r : List Char) : Prop := ∀ c ∈ r.head?, c.isDigit = false

@[simp] theorem ended_nil : Ended [] := by simp [Ended]

@[simp] theorem ended_cons (c : Char) (r : List Char) : Ended (c :: r) ↔ c.isDigit = false := by
  simp [Ended]

/-- What `write` writes can be read back, and its end be found, wherever no digit follows. -/
def Legible (write : α → String) : Prop :=
  ∀ ⦃a b : α⦄ ⦃r r' : List Char⦄, Ended r → Ended r' →
    (write a).toList ++ r = (write b).toList ++ r' → a = b ∧ r = r'

theorem Legible.append_inj (h : Legible write) (hr : Ended r) (hr' : Ended r') :
    (write a).toList ++ r = (write b).toList ++ r' ↔ a = b ∧ r = r' :=
  ⟨h hr hr', by rintro ⟨rfl, rfl⟩; rfl⟩

theorem Legible.inj (h : Legible write) : (write a).toList = (write b).toList ↔ a = b := by
  simpa using h.append_inj (a := a) (b := b) ended_nil ended_nil

/-- A mark in front of a text leaves it legible. -/
theorem Legible.marked (h : Legible write) (mark : String) : Legible fun a => mark ++ write a := by
  intro a b r r' hr hr' heq
  refine h hr hr' ?_
  simpa using heq

/-! ### Numbers and references -/

theorem takeWhile_toDigits_append (n : Nat) (h : Ended r) :
    (Nat.toDigits 10 n ++ r).takeWhile Char.isDigit = Nat.toDigits 10 n := by
  rw [List.takeWhile_append_of_pos fun c hc =>
    Nat.isDigit_of_mem_toDigits (by decide) (by decide) hc]
  cases r with
  | nil => simp
  | cons c r => simp [(ended_cons c r).mp h]

theorem legible_nat : Legible Nat.repr := by
  intro a b r r' hr hr' heq
  simp only [Nat.toList_repr] at heq
  -- the digits are all that is read before the first other character
  have hdigits : Nat.toDigits 10 a = Nat.toDigits 10 b := by
    rw [← takeWhile_toDigits_append a hr, heq, takeWhile_toDigits_append b hr']
  refine ⟨?_, ?_⟩
  · rw [← Nat.ofDigitChars_ten_toDigits (n := a), hdigits, Nat.ofDigitChars_ten_toDigits]
  · rw [hdigits] at heq
    exact List.append_cancel_left heq

/-- A number without a sign starts with a digit. -/
theorem repr_append_ne_minus (n : Nat) (r s : List Char) : n.repr.toList ++ r ≠ '-' :: s := by
  intro hsign
  obtain ⟨c, cs, hcs⟩ := List.exists_cons_of_ne_nil (Nat.toDigits_ne_nil (n := n) (b := 10))
  have hc : c.isDigit = true :=
    Nat.isDigit_of_mem_toDigits (by decide) (by decide) (hcs ▸ List.mem_cons_self)
  simp only [Nat.toList_repr, hcs, List.cons_append, List.cons.injEq] at hsign
  simp [hsign.1] at hc

theorem repr_negSucc_append (n : Nat) (r : List Char) :
    (Int.negSucc n).repr.toList ++ r = '-' :: ((n + 1).repr.toList ++ r) := by
  simp [Int.repr]

theorem legible_int : Legible Int.repr := by
  intro a b r r' hr hr' heq
  cases a with
  | ofNat m =>
    cases b with
    | ofNat n => simpa only [Int.ofNat.injEq] using legible_nat hr hr' heq
    | negSucc n =>
      -- a number does not start with the sign of a negative one
      rw [repr_negSucc_append] at heq
      exact absurd heq (repr_append_ne_minus m r _)
  | negSucc m =>
    cases b with
    | ofNat n =>
      rw [repr_negSucc_append] at heq
      exact absurd heq.symm (repr_append_ne_minus n r' _)
    | negSucc n =>
      obtain ⟨hmn, hrest⟩ := (legible_nat.marked "-") hr hr' heq
      exact ⟨by rw [Nat.succ.inj hmn], hrest⟩

theorem legible_stmtRef : Legible stmtRef := legible_nat.marked "$"

theorem legible_nodeRef : Legible nodeRef := legible_nat.marked "S"

theorem legible_lane : Legible Lane.text := by
  rintro ⟨i, m⟩ ⟨j, n⟩ r r' hr hr' heq
  simpa [Lane.text, legible_stmtRef.append_inj, legible_nat.append_inj, and_assoc,
    -Nat.toList_repr] using heq

/-! ### Lists -/

/-- The elements of a list after its first, each behind the comma that comes before it. -/
def following (write : α → String) (items : List α) : List Char :=
  items.flatMap fun a => ", ".toList ++ (write a).toList

theorem following_cons_append (x : α) (items : List α) (r : List Char) :
    following write (x :: items) ++ r
      = ", ".toList ++ ((write x).toList ++ (following write items ++ r)) := by
  simp [following]

theorem ended_following (items : List α) (hr : Ended r) : Ended (following write items ++ r) := by
  cases items with
  | nil => simpa [following] using hr
  | cons x items => simp [following]

theorem toList_bracketed_nil : (bracketed ([].map write)).toList = ['[', ']'] := by
  simp [bracketed]

theorem toList_bracketed_cons (x : α) (items : List α) :
    (bracketed ((x :: items).map write)).toList
      = '[' :: (write x).toList ++ (following write items ++ [']']) := by
  have hitems : (", ".intercalate ((x :: items).map write)).toList
      = (write x).toList ++ following write items := by
    induction items generalizing x with
    | nil => simp [following]
    | cons y items ih =>
      have := ih y
      simp_all [following, String.toList_intercalate, List.intercalate]
  rw [bracketed, String.toList_append, String.toList_append, hitems]
  simp

theorem following_inj (h : Legible write) (xs ys : List α)
    (heq : following write xs ++ ']' :: r = following write ys ++ ']' :: r') :
    xs = ys ∧ r = r' := by
  -- a comma or the closing bracket says whether there is one more
  induction xs generalizing ys with
  | nil =>
    cases ys with
    | nil => simpa [following] using heq
    | cons y ys => simp [following] at heq
  | cons x xs ih =>
    cases ys with
    | nil => simp [following] at heq
    | cons y ys =>
      rw [following_cons_append, following_cons_append] at heq
      obtain ⟨rfl, hrest⟩ := h (ended_following xs (by simp)) (ended_following ys (by simp))
        (List.append_cancel_left heq)
      obtain ⟨rfl, rfl⟩ := ih ys hrest
      exact ⟨rfl, rfl⟩

/-- A list in brackets is legible if all that is listed starts with one mark, which tells an empty
list from others. -/
theorem Legible.list (h : Legible write) (mark : Char) (hmark : mark ≠ ']')
    (hstarts : ∀ a, (write a).toList.head? = some mark) :
    Legible fun items : List α => bracketed (items.map write) := by
  intro xs ys r r' _ _ heq
  -- no element can be taken for the end of an empty list
  have hempty (x : α) (s t : List Char) : (write x).toList ++ s ≠ ']' :: t := by
    intro hbracket
    obtain ⟨cs, hcs⟩ := List.head?_eq_some_iff.mp (hstarts x)
    rw [hcs] at hbracket
    exact hmark (List.cons.inj hbracket).1
  cases xs with
  -- an empty list ends where another one has its first element
  | nil =>
    cases ys with
    | nil => simpa [toList_bracketed_nil] using heq
    | cons y ys =>
      simp only [toList_bracketed_nil, toList_bracketed_cons] at heq
      exact absurd (by simpa using heq.symm) (hempty y _ r)
  | cons x xs =>
    cases ys with
    | nil =>
      simp only [toList_bracketed_nil, toList_bracketed_cons] at heq
      exact absurd (by simpa using heq) (hempty x _ r')
    | cons y ys =>
      simp only [toList_bracketed_cons, List.cons_append, List.append_assoc, List.cons.injEq,
        true_and, List.nil_append] at heq
      -- the first elements are read alike, and then what follows them
      obtain ⟨rfl, hrest⟩ := h (ended_following xs (by simp)) (ended_following ys (by simp)) heq
      obtain ⟨rfl, rfl⟩ := following_inj h xs ys hrest
      exact ⟨rfl, rfl⟩

theorem legible_stmtRefs : Legible fun ids : List StmtId => bracketed (ids.map stmtRef) :=
  legible_stmtRef.list '$' (by decide) fun i => by simp [stmtRef]

theorem legible_nodeRefs : Legible fun ids : List NodeId => bracketed (ids.map nodeRef) :=
  legible_nodeRef.list 'S' (by decide) fun i => by simp [nodeRef]

theorem legible_lanes : Legible fun lanes : List Lane => bracketed (lanes.map Lane.text) :=
  legible_lane.list '$' (by decide) fun l => by simp [Lane.text, stmtRef]

/-- Operands one after the other, each behind a space. -/
def spaced (ids : List StmtId) : List Char := ids.flatMap fun id => ' ' :: (stmtRef id).toList

theorem ended_spaced (ids : List StmtId) : Ended (spaced ids) := by
  cases ids <;> simp [spaced]

theorem spaced_inj {xs ys : List StmtId} (h : spaced xs = spaced ys) : xs = ys := by
  induction xs generalizing ys with
  | nil => cases ys <;> simp_all [spaced]
  | cons x xs ih =>
    cases ys with
    | nil => simp [spaced] at h
    | cons y ys =>
      have hcons (z : StmtId) (zs : List StmtId) :
          spaced (z :: zs) = ' ' :: ((stmtRef z).toList ++ spaced zs) := by simp [spaced]
      simp only [hcons, List.cons.injEq, true_and,
        legible_stmtRef.append_inj (ended_spaced xs) (ended_spaced ys)] at h
      rw [h.1, ih h.2]

end Legible

/-! ### Names -/

/-- A character that a word may contain: no space, no line end and no brace. -/
def InWord (c : Char) : Prop := c ≠ ' ' ∧ c ≠ '\n' ∧ c ≠ '\x7b'

/-- The first word of a text, up to its first space. -/
theorem takeWhile_word_append {word r : List Char} (hword : ∀ c ∈ word, InWord c)
    (hr : ∀ c ∈ r.head?, c = ' ') : (word ++ r).takeWhile (· ≠ ' ') = word := by
  rw [List.takeWhile_append_of_pos fun c hc => decide_eq_true (hword c hc).1]
  cases r <;> simp_all

theorem ElementType.name_injective {t u : ElementType} (h : t.name = u.name) : t = u := by
  simpa using congrArg ElementType.ofName? h

theorem ElementType.inWord_of_mem_name (t : ElementType) : ∀ c ∈ t.name.toList, InWord c := by
  cases t <;> simp [name, InWord]

theorem legible_vectorType : Legible VectorType.text := by
  rintro ⟨m, t⟩ ⟨n, u⟩ r r' hr hr' heq
  simp only [VectorType.text, String.toList_append, List.append_assoc] at heq
  -- the name ends at the first space
  have hname := congrArg (List.takeWhile (· ≠ ' ')) heq
  rw [takeWhile_word_append t.inWord_of_mem_name (by simp),
    takeWhile_word_append u.inWord_of_mem_name (by simp)] at hname
  obtain rfl := ElementType.name_injective (String.toList_inj.mp hname)
  obtain ⟨rfl, rfl⟩ :=
    legible_nat hr hr' (List.append_cancel_left (List.append_cancel_left heq))
  exact ⟨rfl, rfl⟩

/-- Every unary operator, the casts to each of their types included. -/
def UnaryOp.all : List UnaryOp :=
  plain ++ ElementType.all.flatMap fun t => [cast t true, cast t false]

theorem UnaryOp.find?_name (op : UnaryOp) : UnaryOp.all.find? (·.name == op.name) = some op := by
  cases op with
  | cast target byValue => cases byValue <;> cases target <;> rfl
  | _ => rfl

theorem UnaryOp.name_injective {a b : UnaryOp} (h : a.name = b.name) : a = b := by
  have hfound := a.find?_name
  rw [h, b.find?_name] at hfound
  exact (Option.some.inj hfound).symm

theorem BinaryOp.name_injective {a b : BinaryOp} (h : a.name = b.name) : a = b := by
  simpa using congrArg BinaryOp.ofName? h

theorem TernaryOp.name_injective {a b : TernaryOp} (h : a.name = b.name) : a = b := by
  cases a <;> cases b <;> first | rfl | simp [name] at h

theorem AtomicOp.name_injective {a b : AtomicOp} (h : a.name = b.name) : a = b := by
  cases a <;> cases b <;> first | rfl | simp [name] at h

theorem StorageOp.name_injective {a b : StorageOp} (h : a.name = b.name) : a = b := by
  cases a <;> cases b <;> first | rfl | simp [name] at h

theorem Task.name_injective {a b : Task} (h : a.name = b.name) : a = b := by
  cases a <;> cases b <;> first | rfl | simp [name] at h

namespace Instr

/-! ### First words -/

/-- The first word of an instruction's text. -/
def verb : Instr → String
  | atomic op _ _ => "atomic_" ++ op.name
  | storageOp op _ _ _ => op.name
  | unary op _ => op.name
  | binary op _ _ => op.name
  | ternary op _ _ _ => op.name
  | i => i.mnemonic

theorem toList_text_storageOp (op : StorageOp) (node : NodeId) (ptr value : Option StmtId) :
    (storageOp op node ptr value).text.toList
      = op.name.toList ++ ' ' :: ((nodeRef node).toList
        ++ spaced (ptr.toList ++ value.toList)) := by
  have words (x : List Char) (xs : List (List Char)) :
      [' '].intercalate (x :: xs) = x ++ xs.flatMap (' ' :: ·) := by
    induction xs generalizing x with
    | nil => simp
    | cons y xs ih => simp [List.intercalate_cons_cons, ih]
  -- the operands that are there, each behind a blank
  have htext : (storageOp op node ptr value).text
      = " ".intercalate (op.name :: nodeRef node :: (ptr.toList ++ value.toList).map stmtRef) := rfl
  have hspace : " ".toList = [' '] := by decide
  rw [htext, String.toList_intercalate, List.map_cons, hspace, words]
  simp [spaced, List.flatMap_map]

theorem text_eq_verb_append (i : Instr) :
    ∃ r, i.text.toList = i.verb.toList ++ r ∧ ∀ c ∈ r.head?, c = ' ' := by
  cases i with
  | storageOp op node ptr value => exact ⟨_, toList_text_storageOp op node ptr value, by simp⟩
  | _ => refine ⟨_, by unfold text; simp [verb, mnemonic]; rfl, by simp⟩

theorem inWord_of_mem_verb (i : Instr) : ∀ c ∈ i.verb.toList, InWord c := by
  cases i with
  | atomic op _ _ => cases op <;> simp [verb, AtomicOp.name, InWord]
  | storageOp op _ _ _ => cases op <;> simp [verb, StorageOp.name, InWord]
  | unary op _ =>
    cases op with
    | cast target byValue =>
      have hname := target.inWord_of_mem_name
      cases byValue <;> simp_all [verb, UnaryOp.name, InWord, or_imp, forall_and]
    | _ => simp [verb, UnaryOp.name, InWord]
  | binary op _ _ => cases op <;> simp [verb, BinaryOp.name, InWord]
  | ternary op _ _ _ => cases op <;> simp [verb, TernaryOp.name, InWord]
  | _ => simp [verb, mnemonic, InWord]

theorem takeWhile_text (i : Instr) : i.text.toList.takeWhile (· ≠ ' ') = i.verb.toList := by
  obtain ⟨r, htext, hr⟩ := i.text_eq_verb_append
  rw [htext, takeWhile_word_append i.inWord_of_mem_verb hr]

/-- The mnemonic of the instructions whose text begins with a given word. -/
def mnemonicOf (verb : String) : String :=
  if verb ∈ AtomicOp.all.map ("atomic_" ++ ·.name) then "atomic"
  else if verb ∈ StorageOp.all.map StorageOp.name then "snode_op"
  else if verb ∈ UnaryOp.all.map UnaryOp.name then "unary"
  else if verb ∈ BinaryOp.all.map BinaryOp.name then "binary"
  else if verb ∈ TernaryOp.all.map TernaryOp.name then "ternary"
  else verb

/-- No two kinds of instruction share a first word. -/
theorem mnemonicOf_verb (i : Instr) : mnemonicOf i.verb = i.mnemonic := by
  cases i with
  | atomic op _ _ => cases op <;> rfl
  | storageOp op _ _ _ => cases op <;> rfl
  | unary op _ =>
    cases op with
    | cast target byValue => cases byValue <;> cases target <;> rfl
    | _ => rfl
  | binary op _ _ => cases op <;> rfl
  | ternary op _ _ _ => cases op <;> rfl
  | _ => rfl

/-- Every mnemonic, in the order of the kinds. -/
def mnemonics : List String :=
  ["alloca", "const", "if", "range_for", "struct_for", "while", "local_load", "local_store",
    "global_load", "global_store", "atomic", "global_ptr", "snode_op", "unary", "binary",
    "ternary", "shuffle", "assume_in_range", "arg_load", "arg_store", "external_ptr",
    "loop_index", "get_ch", "offloaded"]

/-- Each kind of instruction has a mnemonic of its own. -/
theorem idxOf_mnemonic (i : Instr) : mnemonics.idxOf i.mnemonic = i.ctorIdx := by
  cases i <;> rfl

/-! ### Lines -/

/-- Instructions that differ in nothing that is printed. -/
inductive Alike : Instr → Instr → Prop
  | refl (i : Instr) : Alike i i
  /-- Constants are seen by their text alone. -/
  | const {v w : Literal} (h : v.text = w.text) : Alike (const v) (const w)
  | branch (cond : StmtId) (t f t' f' : Option BlockId) :
    Alike (branch cond t f) (branch cond t' f')
  | rangeFor (first last : StmtId) (body body' : BlockId) :
    Alike (rangeFor first last body) (rangeFor first last body')
  | structFor (node : NodeId) (body body' : BlockId) :
    Alike (structFor node body) (structFor node body')
  | whileLoop (body body' : BlockId) : Alike (whileLoop body) (whileLoop body')
  | offloaded (task : Task) (body body' : Option BlockId) :
    Alike (offloaded task body) (offloaded task body')
  /-- The single operand of a storage operation may be its pointer or its value. -/
  | ptrValue (op : StorageOp) (node : NodeId) (x : StmtId) :
    Alike (storageOp op node (some x) none) (storageOp op node none (some x))
  | valuePtr (op : StorageOp) (node : NodeId) (x : StmtId) :
    Alike (storageOp op node none (some x)) (storageOp op node (some x) none)

theorem Alike.of_eq {i j : Instr} (h : i = j) : i.Alike j := h ▸ .refl i

theorem Alike.text_eq {i j : Instr} (h : i.Alike j) : i.text = j.text := by
  cases h with
  | const h => exact congrArg ("const " ++ ·) h
  | _ => rfl

theorem Alike.mnemonic_eq {i j : Instr} (h : i.Alike j) : i.mnemonic = j.mnemonic := by
  cases h <;> rfl

theorem alike_storageOp {op : StorageOp} {node : NodeId} {p v p' v' : Option StmtId}
    (h : p.toList ++ v.toList = p'.toList ++ v'.toList) :
    (storageOp op node p v).Alike (storageOp op node p' v') := by
  cases p <;> cases v <;> cases p' <;> cases v' <;> simp at h
  case none.none.none.none => exact .refl _
  case none.some.none.some => exact .of_eq (by rw [h])
  case none.some.some.none => exact h ▸ .valuePtr op node _
  case some.none.none.some => exact h ▸ .ptrValue op node _
  case some.none.some.none => exact .of_eq (by rw [h])
  case some.some.some.some => exact .of_eq (by rw [h.1, h.2])

theorem alike_of_text {i j : Instr} (h : i.text = j.text) : i.Alike j := by
  have hverb : i.verb = j.verb := by
    rw [← String.toList_inj, ← takeWhile_text, ← takeWhile_text, h]
  have hkind : i.ctorIdx = j.ctorIdx := by
    rw [← idxOf_mnemonic, ← idxOf_mnemonic, ← mnemonicOf_verb, ← mnemonicOf_verb, hverb]
  replace h := congrArg String.toList h
  -- only instructions of one kind are left to be compared
  cases i <;> cases j <;> first | exact absurd hkind (Nat.ne_of_beq_eq_false rfl) | skip
  case storageOp.storageOp =>
    obtain rfl := StorageOp.name_injective hverb
    rw [toList_text_storageOp, toList_text_storageOp] at h
    simp only [List.append_cancel_left_eq, List.cons.injEq, true_and,
      legible_nodeRef.append_inj (ended_spaced _) (ended_spaced _)] at h
    obtain ⟨rfl, hoperands⟩ := h
    exact alike_storageOp (spaced_inj hoperands)
  all_goals unfold text at h
  case const.const => exact .const (String.toList_inj.mp (by simpa using h))
  case branch.branch =>
    obtain rfl : _ = _ := by simpa [legible_stmtRef.inj] using h
    exact .branch ..
  case rangeFor.rangeFor =>
    obtain ⟨rfl, rfl⟩ : _ ∧ _ := by simpa [legible_stmtRef.append_inj, legible_stmtRef.inj] using h
    exact .rangeFor ..
  case structFor.structFor =>
    obtain rfl : _ = _ := by simpa [legible_nodeRef.inj] using h
    exact .structFor ..
  case whileLoop.whileLoop => exact .whileLoop ..
  case offloaded.offloaded =>
    obtain rfl := Task.name_injective (String.toList_inj.mp (by simpa using h))
    exact .offloaded ..
  -- an operator is known from the first word, which then cancels
  case atomic.atomic =>
    obtain rfl := AtomicOp.name_injective (by simpa [verb] using hverb)
    exact .of_eq (by simpa [legible_stmtRef.append_inj, legible_stmtRef.inj] using h)
  case unary.unary =>
    obtain rfl := UnaryOp.name_injective hverb
    exact .of_eq (by simpa [legible_stmtRef.inj] using h)
  case binary.binary =>
    obtain rfl := BinaryOp.name_injective hverb
    exact .of_eq (by simpa [legible_stmtRef.append_inj, legible_stmtRef.inj] using h)
  case ternary.ternary =>
    obtain rfl := TernaryOp.name_injective hverb
    exact .of_eq (by simpa [legible_stmtRef.append_inj, legible_stmtRef.inj] using h)
  case alloca.alloca => exact .refl _
  all_goals
    exact .of_eq (by
      simpa [legible_stmtRef.append_inj, legible_stmtRef.inj, legible_nodeRef.append_inj,
        legible_nodeRef.inj, legible_nat.append_inj, legible_nat.inj, legible_int.append_inj,
        legible_stmtRefs.append_inj, legible_stmtRefs.inj, legible_nodeRefs.append_inj,
        legible_lanes.inj, -Nat.toList_repr] using h)

end Instr

/-- **A line determines its instruction**: two lines are equal exactly when the instructions have
the same number, the same type and the same kind, and are the same but for the blocks nested in
them, for which of the two operands of a storage operation a single one is, and for constants that
are written alike. -/
theorem Stmt.text_eq_iff (s t : Stmt) :
    s.text = t.text ↔ s.id = t.id ∧ s.type = t.type ∧
      s.instr.mnemonic = t.instr.mnemonic ∧ s.instr.Alike t.instr := by
  constructor
  · intro h
    -- type, number and instruction are taken off one after the other
    have hparts := congrArg String.toList h
    simp only [Stmt.text, String.toList_append, List.append_assoc,
      List.append_cancel_left_eq] at hparts
    obtain ⟨htype, hrest⟩ := legible_vectorType (by simp) (by simp) hparts
    obtain ⟨hid, hinstr⟩ := legible_stmtRef (by simp) (by simp) (List.append_cancel_left hrest)
    have halike := Instr.alike_of_text (String.toList_inj.mp (List.append_cancel_left hinstr))
    exact ⟨hid, htype, halike.mnemonic_eq, halike⟩
  · rintro ⟨hid, htype, -, halike⟩
    rw [Stmt.text, Stmt.text, hid, htype, halike.text_eq]

end TensorKernel
