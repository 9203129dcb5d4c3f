import TensorKernel.Config
import TensorKernel.Toml.Document

/-!
# Settings in documents

Settings are written in the table `typecheck` of a document; everything beside
it is of no concern. In the table each setting may be given under its name, and
there may be nothing else. The table may also be an array that gives the first
settings in their order. What is not given keeps its default.

A setting that is one of several names is written as a string, or as a table
whose one entry has the name and is empty itself.
-/

namespace TensorKernel.Config

open Toml (Item Table)

/-- Whether an item is a table or an array without anything in it. -/
def isEmptyItem : Item → Bool
  | .table t => t.entries.isEmpty
  | .array items => items.isEmpty
  | .tables ts => ts.isEmpty
  | _ => false

/-- One of several names. -/
def readName? {α : Type} (ofName? : String → Option α) : Item → Option α
  | .string s => ofName? s
  | .table t =>
    match t.entries with
    | [(name, item)] => if isEmptyItem item then ofName? name else none
    | _ => none
  | _ => none

def readBool? : Item → Option Bool
  | .boolean b => some b
  | _ => none

/-- The settings, each with its name in a document. -/
inductive Setting where
  | defaultInt | defaultFloat | narrowing | verifyTotality
  deriving DecidableEq

namespace Setting

/-- In the order in which an array gives them. -/
def all : List Setting := [defaultInt, defaultFloat, narrowing, verifyTotality]

def name : Setting → String
  | defaultInt => "default_ip"
  | defaultFloat => "default_fp"
  | narrowing => "narrowing"
  | verifyTotality => "verify_totality"

def ofName? (s : String) : Option Setting := all.find? (·.name == s)

end Setting

/-- Changes one setting to what an item says. -/
def assign (c : Config) (setting : Setting) (item : Item) : Option Config :=
  match setting with
  | .defaultInt => return { c with defaultInt := ← readName? ElementType.ofName? item }
  | .defaultFloat => return { c with defaultFloat := ← readName? ElementType.ofName? item }
  | .narrowing => return { c with narrowing := ← readName? Narrowing.ofName? item }
  | .verifyTotality => return { c with verifyTotality := ← readBool? item }

/-- Settings under their names. -/
def ofEntries? (entries : List (String × Item)) : Option Config :=
  entries.foldlM (fun c (name, item) => do c.assign (← Setting.ofName? name) item) {}

/-- The first settings in their order. -/
def ofItems? (items : List Item) : Option Config :=
  (Setting.all.zip items).foldlM (fun c (setting, item) => c.assign setting item) {}

def ofItem? : Item → Option Config
  | .table t => ofEntries? t.entries
  | .array items => ofItems? items
  | .tables ts => ofItems? (ts.map .table)
  | _ => none

/-- The settings that a document holds; valid or not. -/
def ofText? (text : String) : Option Config := do
  let document ← Table.ofText? text
  match document.find? "typecheck" with
  | none => return {}
  | some item => ofItem? item

end TensorKernel.Config
