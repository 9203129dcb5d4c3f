import TensorKernel.Config.Document
import TensorKernel.Diagnostic

/-!
# Settings files

Reading settings from a file can fail in three ways: the file cannot be read,
its text holds no settings, or the settings are not valid. What a path leads to
is given as a `FileContent`, so that reading a file is a function like any other.
-/

namespace TensorKernel

/-- What a path leads to. -/
inductive FileContent where
  | missing
  | directory
  | bytes (content : ByteArray)

/-- Why a file cannot be read as a text. -/
inductive Unreadable where
  | missing
  | directory
  | notUtf8
  deriving DecidableEq

def Unreadable.reason : Unreadable → String
  | missing => "No such file or directory (os error 2)"
  | directory => "Is a directory (os error 21)"
  | notUtf8 => "stream did not contain valid UTF-8"

/-- The text of a file. -/
def FileContent.text : FileContent → Except Unreadable String
  | missing => .error .missing
  | directory => .error .directory
  | bytes content =>
    match String.fromUTF8? content with
    | some s => .ok s
    | none => .error .notUtf8

namespace Config

/-- Why there are no settings to be had from a file. -/
inductive LoadError where
  | unreadable (path : String) (why : Unreadable)
  | malformed (path : String)
  | invalid (path : String) (why : Invalid)
  deriving DecidableEq

namespace LoadError

def message : LoadError → String
  | unreadable path why => "cannot read config '" ++ path ++ "': " ++ why.reason
  | malformed path => path ++ ": not a document of checker settings"
  | invalid path why => path ++ ": " ++ why.message

/-- The error as it is reported; it has no place in a source text. -/
def diagnostic (e : LoadError) : Diagnostic where
  severity := .error
  message := e.message
  span := .dummy

end LoadError

/-- Valid settings from the text of a file. -/
def parse (text path : String) : Except LoadError Config := do
  match ofText? text with
  | none => throw (.malformed path)
  | some c =>
    match c.validate with
    | .ok () => return c
    | .error why => throw (.invalid path why)

/-- Valid settings from a file. -/
def load (path : String) (file : FileContent) : Except LoadError Config := do
  match file.text with
  | .ok text => parse text path
  | .error why => throw (.unreadable path why)

end Config

end TensorKernel
