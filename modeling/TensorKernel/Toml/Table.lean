/-!
# Tables

What a document says, once it is read: tables of named items. A table knows how
it came to be (`Origin`), since that decides how more may be added to it. A
table may be defined by one header only; a table that was only mentioned on the
way to another one may still get its own header; a table written by dotted keys
is added to by dotted keys of the same section; and a table in braces is closed.

Everything that adds to a table is put together from `Table.modifyAt`, which
follows a path of names and creates the tables that are missing on it, and may
find that the path is blocked.
-/

namespace TensorKernel.Toml

/-- How a table came to be. -/
inductive Origin where
  /-- By its own header; the table of the whole document counts as such. -/
  | header
  /-- As a table on the path of another header. -/
  | implied
  /-- By dotted keys. -/
  | dotted
  /-- Written in braces. -/
  | inline
  deriving DecidableEq

mutual

/-- A value or a table. -/
inductive Item where
  | string (s : String)
  | boolean (b : Bool)
  | integer (n : Int)
  | float
  | dateTime
  | array (items : List Item)
  | table (t : Table)
  /-- An array of tables, each with a header. -/
  | tables (ts : List Table)

inductive Table where
  | mk (origin : Origin) (entries : List (String × Item))

end

namespace Table

def origin : Table → Origin
  | mk origin _ => origin

/-- The entries of a table; no two have the same name. -/
def entries : Table → List (String × Item)
  | mk _ entries => entries

/-- A table without entries. -/
def blank (origin : Origin) : Table := mk origin []

def find? (t : Table) (name : String) : Option Item := t.entries.lookup name

/-- Replaces the item of a name, or adds it after the others. -/
def set (t : Table) (name : String) (item : Item) : Table :=
  mk t.origin <|
    if (t.find? name).isSome then
      t.entries.map fun entry => if entry.1 == name then (name, item) else entry
    else t.entries ++ [(name, item)]

/-- Changes the table at the end of a path. Where there is no table yet, one is
made; where there is an array of tables, the path leads on from its last one.
A path of dotted keys is blocked by a table that has its own header, and any
path by a table in braces or by what is no table. -/
def modifyAt (dotted : Bool) : List String → (Table → Option Table) → Table → Option Table
  | [], change, t => change t
  | name :: path, change, t =>
    match t.find? name with
    | none => do
      let child ← modifyAt dotted path change (blank (if dotted then .dotted else .implied))
      return t.set name (.table child)
    | some (.table child) =>
      if child.origin = .inline ∨ dotted ∧ child.origin = .header then none
      else do
        let child ← modifyAt dotted path change child
        return t.set name (.table child)
    | some (.tables elements) => do
      let last ← modifyAt dotted path change (← elements.getLast?)
      return t.set name (.tables (elements.dropLast ++ [last]))
    | some _ => none

/-- A dotted key, as the words before the last one and the last one. -/
abbrev Key := List String × String

/-- Gives a name an item. The name may not be taken yet, and dotted keys may
only add to tables that dotted keys made. -/
def define (t : Table) (key : Key) (item : Item) : Option Table :=
  t.modifyAt true key.1 fun t =>
    if (t.origin == .dotted) == key.1.isEmpty || (t.find? key.2).isSome then none
    else some (t.set key.2 item)

/-- Gives names their items, one by one. -/
def defineAll (t : Table) (pairs : List (Key × Item)) : Option Table :=
  pairs.foldlM (fun t (key, item) => t.define key item) t

/-! ### Sections -/

/-- A header with the definitions below it. -/
structure Section where
  /-- Whether the header adds an element to an array of tables. -/
  isElement : Bool
  key : Key
  pairs : List (Key × Item)

/-- Adds a section to the table of the whole document. -/
def addSection (t : Table) (s : Section) : Option Table :=
  t.modifyAt false s.key.1 fun parent => do
    let name := s.key.2
    match parent.find? name, s.isElement with
    | none, false =>
      return parent.set name (.table (← (blank .header).defineAll s.pairs))
    | some (.table (mk .implied entries)), false =>
      return parent.set name (.table (← (mk .header entries).defineAll s.pairs))
    | none, true =>
      return parent.set name (.tables [← (blank .header).defineAll s.pairs])
    | some (.tables elements), true =>
      return parent.set name (.tables (elements ++ [← (blank .header).defineAll s.pairs]))
    | _, _ => none

end Table

end TensorKernel.Toml
