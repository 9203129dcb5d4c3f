import TensorKernel.ElementType

/-!
# Checker settings

What a run of the type checker may be told: the types that the operands of the
two divisions are brought to, what to do about a conversion that may lose
precision, and whether every value that is read has to have a type in the end.

Settings that come from a file have to be valid (`Config.validate`). Settings
that are put together by hand need not be, and the checker runs with them too.
-/

namespace TensorKernel

/-- What to do about an implicit conversion that may lose precision. -/
inductive Narrowing where
  /-- Convert, and report a warning. -/
  | warn
  /-- Refuse the kernel. -/
  | deny
  deriving DecidableEq

namespace Narrowing

def all : List Narrowing := [warn, deny]

def name : Narrowing → String
  | warn => "warn"
  | deny => "deny"

def ofName? (s : String) : Option Narrowing := all.find? (·.name == s)

@[simp] theorem ofName?_name (n : Narrowing) : ofName? n.name = some n := by cases n <;> rfl

end Narrowing

structure Config where
  /-- The type that operands of a floor division are brought to. -/
  defaultInt : ElementType := .i32
  /-- The type that operands of a true division are brought to. -/
  defaultFloat : ElementType := .f32
  narrowing : Narrowing := .warn
  /-- Whether a kernel is refused if a value that is read stays untyped. -/
  verifyTotality : Bool := true
  deriving DecidableEq

namespace Config

/-- Why settings are not valid. -/
inductive Invalid where
  | defaultInt (elem : ElementType)
  | defaultFloat (elem : ElementType)
  deriving DecidableEq

def Invalid.message : Invalid → String
  | defaultInt t => "typecheck.default_ip must be an integer type, got " ++ t.name
  | defaultFloat t => "typecheck.default_fp must be a floating-point type, got " ++ t.name

/-- Floor division needs an integer type and true division a floating-point type. -/
def validate (c : Config) : Except Invalid Unit :=
  if !c.defaultInt.isIntegral then .error (.defaultInt c.defaultInt)
  else if !c.defaultFloat.isReal then .error (.defaultFloat c.defaultFloat)
  else .ok ()

theorem validate_eq_ok_iff (c : Config) :
    c.validate = .ok () ↔ c.defaultInt.isIntegral = true ∧ c.defaultFloat.isReal = true := by
  unfold validate
  cases c.defaultInt.isIntegral <;> cases c.defaultFloat.isReal <;> simp

end Config

end TensorKernel
