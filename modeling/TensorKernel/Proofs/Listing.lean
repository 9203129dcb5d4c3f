import TensorKernel.Program.Listing
import TensorKernel.Proofs.Build
import TensorKernel.Proofs.Notation
import TensorKernel.Proofs.Order

/-!
# Reading a listing back

The printer and the walk go through a program separately. A listing, read as text, nevertheless
shows what the walk finds, each instruction as often as it is met, and shows where it lies
(`Program.listing_follows_walk`).

`Program.Reads` is a reader of listings that keeps the open braces on a stack, each with the block
behind it. That a listing is read to its end says everything at once: which line comes next, how
deep it is indented and whose brace is closed. What is claimed of the lines is read off from it, so
that the recursion of the printer is followed only once, in `Program.reads_layout`.

Lines are told apart by their first character, and an instruction's line may end in a brace. Both
need that no instruction's text contains a line end or a brace of its own (`plain_text`).

Blocks may be nested in more than one instruction, and an instruction is then met more than once. An
`Program.Occurrence` therefore has the blocks through which it was reached.
-/

namespace TensorKernel

/-! ### Texts without line ends and braces -/

/-- No line ends in the text, and no brace opens in it. -/
def Plain (text : List Char) : Prop := ∀ c ∈ text, c ≠ '\n' ∧ c ≠ '\x7b'

section Plain

variable {α : Type} {s t : List Char}

@[simp] theorem plain_nil : Plain [] := fun _ hc => nomatch hc

@[simp] theorem plain_cons (c : Char) : Plain (c :: s) ↔ (c ≠ '\n' ∧ c ≠ '\x7b') ∧ Plain s :=
  List.forall_mem_cons

@[simp] theorem plain_append : Plain (s ++ t) ↔ Plain s ∧ Plain t := List.forall_mem_append

@[simp] theorem plain_flatMap {l : List α} {f : α → List Char} :
    Plain (l.flatMap f) ↔ ∀ a ∈ l, Plain (f a) := by
  simp only [Plain, List.mem_flatMap]
  grind

theorem Plain.subset (h : Plain t) (hsub : s ⊆ t) : Plain s := fun c hc => h c (hsub hc)

theorem plain_of_inWord (h : ∀ c ∈ s, InWord c) : Plain s := fun c hc => (h c hc).2

theorem Plain.newline_notMem (h : Plain s) : '\n' ∉ s := fun hc => (h _ hc).1 rfl

/-! ### Literals -/

@[simp] theorem plain_toDigits (n : Nat) : Plain (Nat.toDigits 10 n) := by
  intro c hc
  have hdigit : c.isDigit = true := Nat.isDigit_of_mem_toDigits (by decide) (by decide) hc
  constructor <;> rintro rfl <;> simp at hdigit

@[simp] theorem plain_repr (z : Int) : Plain z.repr.toList := by
  cases z <;> simp [Int.repr]

theorem plain_zeros (n : Nat) : Plain (List.replicate n '0') := fun c hc => by
  rw [List.eq_of_mem_replicate hc]
  decide

theorem plain_digits_shortest (i : RoundingInterval) : Plain i.shortest.digits := by
  refine Plain.subset (plain_toDigits (i.search i.leadingExponent RoundingInterval.maxDigits).1) ?_
  intro c hc
  exact List.mem_reverse.1 ((List.dropWhile_sublist _).subset (List.mem_reverse.1 hc))

theorem plain_positional {d : Decimal} (h : Plain d.digits) :
    Plain (DecimalLayout.positional d) := by
  obtain ⟨digits, lead⟩ := d
  -- all that is added to the digits are zeros and the point
  cases lead with
  | ofNat e =>
    have hplaces : Plain (digits ++ List.replicate (e + 1 - digits.length) '0') :=
      plain_append.2 ⟨h, plain_zeros _⟩
    have htake := hplaces.subset (List.take_subset (e + 1) _)
    have hdrop := hplaces.subset (List.drop_subset (e + 1) _)
    refine plain_append.2 ⟨htake, (plain_cons ..).2 ⟨by decide, ?_⟩⟩
    split
    · simp
    · exact hdrop
  | negSucc e =>
    refine plain_append.2 ⟨?_, h⟩
    exact (plain_cons ..).2 ⟨by decide, (plain_cons ..).2 ⟨by decide, plain_zeros e⟩⟩

theorem plain_scientific {d : Decimal} (h : Plain d.digits) :
    Plain (DecimalLayout.scientific d) := by
  have htake := h.subset (List.take_subset 1 _)
  have hdrop := h.subset (List.drop_subset 1 _)
  unfold DecimalLayout.scientific
  split <;> simp [h, htake, hdrop, -List.drop_one]

theorem plain_decimal (l : DecimalLayout) (f : BinaryFormat) (bits : Nat) :
    Plain (l.text f bits).toList := by
  have hsign (negative : Bool) : Plain (if negative then "-" else "").toList := by
    cases negative <;> simp
  unfold DecimalLayout.text
  dsimp only
  -- not a number, the infinities and zero are written out; the others have digits
  split
  · simp
  · simp [hsign]
  · simp [hsign]
  · simp only [String.toList_append, plain_append, String.toList_ofList, hsign, true_and]
    split
    · exact plain_positional (plain_digits_shortest _)
    · exact plain_scientific (plain_digits_shortest _)

theorem plain_literal (v : Literal) : Plain v.text.toList := by
  cases v <;> simp [Literal.text, plain_decimal]

/-! ### Instructions -/

theorem plain_stmtRef (id : StmtId) : Plain (stmtRef id).toList := by simp [stmtRef]

theorem plain_nodeRef (id : NodeId) : Plain (nodeRef id).toList := by simp [nodeRef]

theorem plain_lane (l : Lane) : Plain l.text.toList := by simp [Lane.text, plain_stmtRef]

theorem plain_bracketed {write : α → String} (h : ∀ a, Plain (write a).toList) (items : List α) :
    Plain (bracketed (items.map write)).toList := by
  cases items with
  | nil =>
    rw [toList_bracketed_nil]
    simp
  | cons x items =>
    rw [toList_bracketed_cons]
    simp [following, h]

theorem plain_instr (i : Instr) : Plain i.text.toList := by
  have hverb := plain_of_inWord i.inWord_of_mem_verb
  cases i with
  | storageOp op node p v =>
    rw [Instr.toList_text_storageOp]
    simpa [spaced, plain_nodeRef, plain_stmtRef, Instr.verb] using hverb
  | offloaded task _ =>
    unfold Instr.text
    cases task <;> simp [Task.name]
  | _ =>
    unfold Instr.text
    simp_all [plain_nodeRef, plain_stmtRef, plain_lane, plain_bracketed, plain_literal, Instr.verb]

/-- **An instruction's text is one line**, and opens no brace. -/
theorem plain_text (s : Stmt) : Plain s.text.toList := by
  have hname := plain_of_inWord s.type.elem.inWord_of_mem_name
  simp [Stmt.text, VectorType.text, hname, plain_stmtRef, plain_instr]

end Plain

/-! ### Lines of a text -/

/-- The lines of a text without their ends. What follows the last line end is a line only if there
is anything. -/
def linesOf (text : String) : List (List Char) :=
  let pieces := text.toList.splitOn '\n'
  if pieces.getLast? = some [] then pieces.dropLast else pieces

/-- A text that is indented by two spaces for each of `depth` blocks. -/
def indented (depth : Nat) (text : String) : List Char :=
  List.replicate (2 * depth) ' ' ++ text.toList

/-- A line without its indentation. -/
def unindented (line : List Char) : List Char := line.dropWhile (· = ' ')

/-- Whether a line is that of an instruction: it starts with the bracket around a type. -/
def isHead (line : List Char) : Bool := (unindented line).head? = some '<'

/-- A line without its indentation and without the brace that it may open. -/
def bare (line : List Char) : List Char :=
  let text := unindented line
  if " \x7b".toList.isSuffixOf text then text.take (text.length - 2) else text

def Line.chars (l : Line) : List Char := indented l.depth l.text

section Lines

variable {depth : Nat} {text : String} {lines : List (List Char)}

theorem splitOn_flatMap_lines (h : ∀ l ∈ lines, '\n' ∉ l) :
    (lines.flatMap (· ++ ['\n'])).splitOn '\n' = lines ++ [[]] := by
  induction lines with
  | nil => simp
  | cons l lines ih =>
    have hl : '\n' ∉ l := h l List.mem_cons_self
    rw [List.flatMap_cons, List.append_assoc, List.singleton_append,
      List.splitOn_append_cons_self_of_not_mem hl, ih fun k hk => h k (List.mem_cons_of_mem _ hk)]
    rfl

theorem linesOf_eq (htext : text.toList = lines.flatMap (· ++ ['\n']))
    (h : ∀ l ∈ lines, '\n' ∉ l) : linesOf text = lines := by
  simp [linesOf, htext, splitOn_flatMap_lines h]

theorem toList_render (l : Line) : l.render.toList = l.chars ++ ['\n'] := by
  have hspaces (n : Nat) : (List.replicate n [' ', ' ']).flatten = List.replicate (2 * n) ' ' := by
    induction n with
    | zero => rfl
    | succ n ih => simp [List.replicate_succ, ih, Nat.mul_add]
  simp [Line.render, Line.chars, indented, String.toList_join, List.flatMap, hspaces]

theorem toList_join_render (ls : List Line) :
    (String.join (ls.map Line.render)).toList = (ls.map Line.chars).flatMap (· ++ ['\n']) := by
  simp [String.toList_join, List.flatMap_map, toList_render]

theorem newline_notMem_indented (h : '\n' ∉ text.toList) : '\n' ∉ indented depth text := by
  simp [indented, List.mem_replicate, h]

theorem unindented_indented (h : text.toList.head? ≠ some ' ') :
    unindented (indented depth text) = text.toList := by
  rw [unindented, indented, List.dropWhile_append_of_pos fun c hc => by
    simp [List.eq_of_mem_replicate hc]]
  -- the text itself does not start with a space, so that no more than the indentation is dropped
  cases htext : text.toList with
  | nil => rfl
  | cons c cs =>
    rw [List.dropWhile_cons_of_neg]
    simpa [htext] using h

theorem head?_text_append (s : Stmt) (rest : String) :
    (s.text ++ rest).toList.head? = some '<' := by
  simp [Stmt.text]

theorem unindented_text (s : Stmt) (rest : String) :
    unindented (indented depth (s.text ++ rest)) = (s.text ++ rest).toList := by
  apply unindented_indented
  rw [head?_text_append]
  decide

end Lines

namespace Program

/-! ### Occurrences -/

/-- An instruction where the walk meets it. -/
structure Occurrence where
  /-- The blocks around it but for the root, innermost first. -/
  way : List BlockId
  id : StmtId

/-- The occurrences in a block and in all blocks nested in it, in program order, to a given depth;
`way` leads to the block. -/
def occurrences (p : Program) : Nat → List BlockId → BlockId → List Occurrence
  | 0, _, _ => []
  | bound + 1, way, b => (p.listAt b).flatMap fun x =>
      ⟨way, x⟩ :: (p.instrAt x).blocks.flatMap fun b' => p.occurrences bound (b' :: way) b'

/-- An instruction lies in the root, or in a block that is nested in an instruction; the blocks
around that one are the rest of the way. -/
inductive Lies (p : Program) : List BlockId → StmtId → Prop
  | root {x : StmtId} (h : x ∈ p.listAt root) : p.Lies [] x
  | nested {x y : StmtId} {b : BlockId} {way : List BlockId} (howner : p.Lies way y)
      (hb : b ∈ (p.instrAt y).blocks) (h : x ∈ p.listAt b) : p.Lies (b :: way) x

variable {p : Program} {bound depth : Nat} {way : List BlockId} {b : BlockId}

theorem map_id_occurrences (bound : Nat) (way : List BlockId) (b : BlockId) :
    (p.occurrences bound way b).map Occurrence.id = p.order bound b := by
  induction bound generalizing way b with
  | zero => rfl
  | succ bound ih => simp [occurrences, order, List.map_flatMap, ih]

theorem lies_of_mem_occurrences {o : Occurrence} (h : ∀ x ∈ p.listAt b, p.Lies way x)
    (ho : o ∈ p.occurrences bound way b) : p.Lies o.way o.id := by
  induction bound generalizing way b with
  | zero => cases ho
  | succ bound ih =>
    obtain ⟨x, hx, ho⟩ := List.mem_flatMap.1 ho
    rcases List.mem_cons.1 ho with rfl | ho
    · exact h x hx
    · obtain ⟨b', hb', ho⟩ := List.mem_flatMap.1 ho
      exact ih (fun y hy => .nested (h x hx) hb' hy) ho

/-! ### The lines of a program -/

/-- The lines of a block that is nested in `depth` others, as a function. -/
def layout (p : Program) : (bound depth : Nat) → BlockId → List Line
  | 0, _, _ => []
  | bound + 1, depth, b => (p.listAt b).flatMap fun x =>
      frame depth (p.stmtAt x).text ((p.instrAt x).blocks.map (p.layout bound (depth + 1)))

theorem blockLines_eq (depth : Nat) (h : p.Fits bound b) :
    p.blockLines bound depth b = .ok (p.layout bound depth b) := by
  induction bound generalizing depth b with
  | zero => exact h.elim
  | succ bound ih =>
    obtain ⟨hb, hlist⟩ := h
    have hparts := mapM_nested_eq_ok (fun _ s nested => frame depth s.text nested) fun x hx =>
      ⟨(hlist x hx).1, fun b' hb' => ih (depth + 1) ((hlist x hx).2 b' hb')⟩
    rw [blockLines, block_eq hb, Fault.bind_eq_ok_iff]
    refine ⟨_, rfl, Fault.bind_eq_ok_iff.2 ⟨_, hparts, ?_⟩⟩
    rw [layout, List.flatMap_def]
    rfl

/-- The line of an occurrence, with the brace behind it if the instruction has blocks. -/
def headLine (p : Program) (o : Occurrence) : List Char :=
  indented o.way.length
    ((p.stmtAt o.id).text ++ if (p.instrAt o.id).blocks = [] then "" else " \x7b")

/-- The line between two blocks of an instruction around which there are `depth` blocks. -/
def elseLine (depth : Nat) : List Char := indented depth "\x7d else \x7b"

/-- The line behind the last block of an instruction around which there are `depth` blocks. -/
def endLine (depth : Nat) : List Char := indented depth "\x7d"

/-- The other lines that an occurrence needs: one before each of its blocks but the first, and one
behind the last. -/
def braceLines (p : Program) (o : Occurrence) : List (List Char) :=
  match (p.instrAt o.id).blocks with
  | [] => []
  | _ :: others => others.map (fun _ => elseLine o.way.length) ++ [endLine o.way.length]

@[simp] theorem isHead_headLine (o : Occurrence) : isHead (p.headLine o) = true := by
  rw [isHead, headLine, unindented_text, head?_text_append]
  rfl

@[simp] theorem isHead_elseLine : isHead (elseLine depth) = false := by
  rw [isHead, elseLine, unindented_indented (by simp)]
  simp

@[simp] theorem isHead_endLine : isHead (endLine depth) = false := by
  rw [isHead, endLine, unindented_indented (by simp)]
  simp

theorem bare_headLine (o : Occurrence) : bare (p.headLine o) = (p.stmtAt o.id).text.toList := by
  rw [bare, headLine, unindented_text, String.toList_append]
  by_cases hblocks : (p.instrAt o.id).blocks = []
  · -- the text has no brace of its own that could be taken off
    have hsuffix : ¬ " \x7b".toList <:+ (p.stmtAt o.id).text.toList := by
      intro hs
      have hbrace : '\x7b' ∈ " \x7b".toList := by decide
      exact (plain_text _ _ (hs.subset hbrace)).2 rfl
    rw [if_pos hblocks, String.toList_empty, List.append_nil]
    exact if_neg (by rwa [List.isSuffixOf_iff_suffix])
  · rw [if_neg hblocks]
    simp

theorem newline_notMem_headLine (o : Occurrence) : '\n' ∉ p.headLine o := by
  have htext := (plain_text (p.stmtAt o.id)).newline_notMem
  refine newline_notMem_indented ?_
  split <;> simp [htext]

/-! ### Reading the lines -/

/-- Reads a listing line by line. For each brace that is open the reader keeps the block behind it
and the blocks of the same instruction that are still to come. -/
inductive Reads (p : Program) :
    List (BlockId × List BlockId) → List Occurrence → List (List Char) → Prop
  | done : p.Reads [] [] []
  /-- An instruction without blocks, in the blocks that are open. -/
  | plain {o opened os lines} (hway : o.way = opened.map Prod.fst)
      (hblocks : (p.instrAt o.id).blocks = []) (rest : p.Reads opened os lines) :
      p.Reads opened (o :: os) (p.headLine o :: lines)
  /-- An instruction that opens the first of its blocks. -/
  | opens {o opened os lines b later} (hway : o.way = opened.map Prod.fst)
      (hblocks : (p.instrAt o.id).blocks = b :: later)
      (rest : p.Reads ((b, later) :: opened) os lines) :
      p.Reads opened (o :: os) (p.headLine o :: lines)
  /-- The innermost block ends, and the next one of the same instruction is opened. -/
  | turns {opened os lines b b' later} (rest : p.Reads ((b', later) :: opened) os lines) :
      p.Reads ((b, b' :: later) :: opened) os (elseLine opened.length :: lines)
  /-- The innermost block ends, which was the last one of its instruction. -/
  | closes {opened os lines b} (rest : p.Reads opened os lines) :
      p.Reads ((b, []) :: opened) os (endLine opened.length :: lines)

variable {opened : List (BlockId × List BlockId)} {os : List Occurrence} {lines : List (List Char)}

/-- The blocks of an instruction are read if a block is read wherever it is opened. -/
theorem reads_blocks
    (hblock : ∀ {opened os lines} (b : BlockId), p.Reads opened os lines →
      p.Reads opened (p.occurrences bound (opened.map Prod.fst) b ++ os)
        ((p.layout bound opened.length b).map Line.chars ++ lines))
    (later : List BlockId) (h : p.Reads opened os lines) :
    p.Reads ((b, later) :: opened)
      ((b :: later).flatMap (fun b' => p.occurrences bound (b' :: opened.map Prod.fst) b') ++ os)
      ((p.layout bound (opened.length + 1) b
          ++ (later.map (p.layout bound (opened.length + 1))).flatMap
            (Line.mk opened.length "\x7d else \x7b" :: ·)
          ++ [Line.mk opened.length "\x7d"]).map Line.chars ++ lines) := by
  -- what is read behind a block is the line that ends it, with what the other blocks take
  induction later generalizing b with
  | nil => simpa [Line.chars, endLine] using hblock b (.closes h)
  | cons b' later ih => simpa [Line.chars, elseLine] using hblock b (.turns (ih (b := b')))

/-- **The lines of a block are read** in front of whatever is read behind it. -/
theorem reads_layout (bound : Nat) (b : BlockId) (h : p.Reads opened os lines) :
    p.Reads opened (p.occurrences bound (opened.map Prod.fst) b ++ os)
      ((p.layout bound opened.length b).map Line.chars ++ lines) := by
  induction bound generalizing opened os lines b with
  | zero => exact h
  | succ bound ih =>
    unfold occurrences layout
    -- along the list of the block, behind each of whose instructions the rest is read
    induction p.listAt b with
    | nil => exact h
    | cons x l ihl =>
      cases hblocks : (p.instrAt x).blocks with
      | nil =>
        have hread := Reads.plain (o := ⟨opened.map Prod.fst, x⟩) rfl hblocks ihl
        simpa [frame, hblocks, headLine, Line.chars] using hread
      | cons b' later =>
        have hread := Reads.opens (o := ⟨opened.map Prod.fst, x⟩) rfl hblocks
          (reads_blocks ih later ihl)
        simpa [frame, hblocks, headLine, Line.chars] using hread

theorem Reads.filter_isHead (h : p.Reads opened os lines) :
    lines.filter isHead = os.map p.headLine := by
  induction h with
  | done => rfl
  | plain _ _ _ ih => simp [ih]
  | opens _ _ _ ih => simp [ih]
  | turns _ ih => simp [ih]
  | closes _ ih => simp [ih]

/-- The lines that are still needed for the braces that are open. -/
def pending : List (BlockId × List BlockId) → List (List Char)
  | [] => []
  | (_, later) :: opened =>
    later.map (fun _ => elseLine opened.length) ++ endLine opened.length :: pending opened

theorem Reads.perm_braceLines (h : p.Reads opened os lines) :
    (lines.filter (!isHead ·)).Perm (pending opened ++ os.flatMap p.braceLines) := by
  induction h with
  | done => exact .nil
  | plain _ hblocks _ ih => simpa [braceLines, hblocks] using ih
  | @opens o opened os lines b later hway hblocks _ ih =>
    -- the lines of the instruction that opens come before those that were pending
    have hbraces : p.braceLines o
        = later.map (fun _ => elseLine opened.length) ++ [endLine opened.length] := by
      simp [braceLines, hblocks, hway]
    rw [List.filter_cons_of_neg (by simp), List.flatMap_cons, hbraces, ← List.append_assoc]
    refine ih.trans (.append_right _ ?_)
    rw [pending, ← List.singleton_append, ← List.append_assoc]
    exact List.perm_append_comm
  | turns _ ih => simpa [pending] using ih
  | closes _ ih => simpa [pending] using ih

theorem Reads.newline_notMem (h : p.Reads opened os lines) : ∀ l ∈ lines, '\n' ∉ l := by
  induction h with
  | done => exact fun l hl => nomatch hl
  | plain _ _ _ ih => exact List.forall_mem_cons.2 ⟨newline_notMem_headLine _, ih⟩
  | opens _ _ _ ih => exact List.forall_mem_cons.2 ⟨newline_notMem_headLine _, ih⟩
  | turns _ ih => exact List.forall_mem_cons.2 ⟨newline_notMem_indented (by decide), ih⟩
  | closes _ ih => exact List.forall_mem_cons.2 ⟨newline_notMem_indented (by decide), ih⟩

/-- **A listing shows the walk.** Its instruction lines, bare, are the texts of what is reachable,
in order and as often as it is met; each is indented by two spaces for each block around it. All
other lines are braces: for every occurrence with blocks one that closes it and one before each
block after the first, at the indentation of the occurrence, and properly nested. -/
theorem listing_follows_walk (hp : p.Walkable) (hacyclic : p.Acyclic) :
    ∃ order text places, p.reachable = .ok order ∧ p.listing = .ok text ∧
      places.map Occurrence.id = order ∧ (∀ o ∈ places, p.Lies o.way o.id) ∧
      ((linesOf text).filter isHead).map bare = order.map (fun x => (p.stmtAt x).text.toList) ∧
      (linesOf text).filter isHead = places.map p.headLine ∧
      ((linesOf text).filter (!isHead ·)).Perm (places.flatMap p.braceLines) ∧
      p.Reads [] places (linesOf text) := by
  have hfits := hp.fits hacyclic
  have hread : p.Reads [] (p.occurrences p.nestingBound [] root)
      ((p.layout p.nestingBound 0 root).map Line.chars) := by
    simpa using reads_layout p.nestingBound root (Reads.done (p := p))
  have htext : p.listing =
      .ok (String.join ((p.layout p.nestingBound 0 root).map Line.render)) := by
    rw [listing, lines, blockLines_eq 0 hfits]
    rfl
  -- the text is cut into the lines that it was made of
  have hlines := linesOf_eq (toList_join_render _) hread.newline_notMem
  refine ⟨_, _, p.occurrences p.nestingBound [] root, contents_eq hfits, htext,
    map_id_occurrences .., ?_, ?_, ?_, ?_, ?_⟩
  · exact fun o ho => lies_of_mem_occurrences (fun x hx => .root hx) ho
  · rw [hlines, hread.filter_isHead, ← map_id_occurrences _ []]
    simp [bare_headLine]
  · rw [hlines, hread.filter_isHead]
  · rw [hlines]
    exact hread.perm_braceLines
  · rw [hlines]
    exact hread

/-- A conditional with an empty second block, a loop that nests the first block as well, and a
conditional without blocks. -/
def sharedBlockProgram : Program where
  stmts := #[⟨0, .dummy, .scalar .i32, .const (.i32 0), root⟩,
    ⟨1, .dummy, .unknown, .argLoad 0, 1⟩, ⟨2, .dummy, .unknown, .branch 0 (some 1) (some 2), root⟩,
    ⟨3, .dummy, .unknown, .whileLoop 1, root⟩, ⟨4, .dummy, .unknown, .branch 0 none none, root⟩]
  blocks := #[⟨[0, 2, 3, 4], none⟩, ⟨[1], some 3⟩, ⟨[], some 2⟩]

/-- The instruction of the shared block is met twice, in either place at the same depth. -/
theorem listing_follows_walk_shared_block :
    build [.emit (.const (.i32 0)), .ifElse 0 [.emit (.argLoad 0)] [], .emit (.whileLoop 1),
        .emit (.branch 0 none none)] = .ok (sharedBlockProgram, [0, 1, 2, 3, 4]) ∧
      sharedBlockProgram.Walkable ∧ sharedBlockProgram.Acyclic ∧
      sharedBlockProgram.reachable = .ok [0, 2, 1, 3, 1, 4] ∧
      ∃ text places, sharedBlockProgram.listing = .ok text ∧
        text = "<i32 x1> $0 = const 0\n<unknown x1> $2 = if $0 \x7b\n" ++
          "  <unknown x1> $1 = arg_load 0\n\x7d else \x7b\n\x7d\n" ++
          "<unknown x1> $3 = while \x7b\n  <unknown x1> $1 = arg_load 0\n\x7d\n" ++
          "<unknown x1> $4 = if $0\n" ∧
        places.map Occurrence.id = [0, 2, 1, 3, 1, 4] ∧
        (∀ o ∈ places, sharedBlockProgram.Lies o.way o.id) ∧
        ((linesOf text).filter (!isHead ·)).Perm (places.flatMap sharedBlockProgram.braceLines) ∧
        sharedBlockProgram.Reads [] places (linesOf text) := by
  have hbuild : build [.emit (.const (.i32 0)), .ifElse 0 [.emit (.argLoad 0)] [],
      .emit (.whileLoop 1), .emit (.branch 0 none none)] =
      .ok (sharedBlockProgram, [0, 1, 2, 3, 4]) := by decide +kernel
  have hcoherent := build_coherent hbuild
  have hp : sharedBlockProgram.Walkable := hcoherent.walkable (by decide +kernel)
  have hacyclic : sharedBlockProgram.Acyclic := hcoherent.acyclic_of_lt (by decide +kernel)
  -- the order lists the shared block twice, and so do the occurrences
  have horder : sharedBlockProgram.reachable = .ok [0, 2, 1, 3, 1, 4] := by decide +kernel
  obtain ⟨order, text, places, horder', htext, hids, hlies, -, -, hbraces, hread⟩ :=
    listing_follows_walk hp hacyclic
  cases horder.symm.trans horder'
  refine ⟨hbuild, hp, hacyclic, horder, text, places, htext, ?_, hids, hlies, hbraces, hread⟩
  exact Except.ok.inj (htext.symm.trans (by decide +kernel))

end Program

end TensorKernel
