import TensorKernel.ElementType

/-!
# Promotion of element types

`promote a b` is the type that two operands are brought to before they are
combined:

* a type with itself gives itself;
* `unknown` gives way to any type;
* two floating-point types give the wider one, and a floating-point type with
  an integer type gives the floating-point type;
* two integer types of one signedness give the wider one;
* a signed and an unsigned type give the signed one if it is strictly wider,
  else the signed type twice as wide as the unsigned one, else — there is no
  such type beside `u64` — `u64` itself.

A conversion of a value of type `v` into a place of type `t` is a *narrowing*
when `promote t v ≠ t`: the place cannot hold everything the value may be.
-/

namespace TensorKernel.ElementType

/-- The wider of two types; of two equally wide ones the first. -/
def wider (a b : ElementType) : ElementType :=
  if a.bits ≥ b.bits then a else b

/-- The common type of a signed and an unsigned integer type. -/
def mixedSign (signed unsigned : ElementType) : ElementType :=
  if signed.bits > unsigned.bits then signed
  else (signedOfBits? (unsigned.bits * 2)).getD u64

/-- The common type of two operands. -/
def promote (a b : ElementType) : ElementType :=
  if a = b then a
  else if a.isUnknown then b
  else if b.isUnknown then a
  else match a.isReal, b.isReal with
    | true, true => wider a b
    | true, false => a
    | false, true => b
    | false, false =>
      if a.isSigned = b.isSigned then wider a b
      else if a.isSigned then mixedSign a b
      else mixedSign b a

/-- Storing a value of type `value` in a place of type `target` may lose part of it. -/
def narrows (target value : ElementType) : Bool := promote target value ≠ target

@[simp] theorem promote_self (a : ElementType) : promote a a = a := by simp [promote]

@[simp] theorem narrows_self (a : ElementType) : narrows a a = false := by simp [narrows]

theorem promote_comm (a b : ElementType) : promote a b = promote b a := by
  cases a <;> cases b <;> decide

@[simp] theorem promote_unknown_left (a : ElementType) : promote unknown a = a := by
  cases a <;> decide

@[simp] theorem promote_unknown_right (a : ElementType) : promote a unknown = a := by
  cases a <;> decide

/-- Only an unknown pair promotes to an unknown type. -/
theorem promote_eq_unknown {a b : ElementType} :
    promote a b = unknown ↔ a = unknown ∧ b = unknown := by
  cases a <;> cases b <;> decide

/-- **Promotion absorbs its arguments**: the common type takes either operand
without narrowing. -/
theorem promote_promote_left (a b : ElementType) : promote (promote a b) a = promote a b := by
  cases a <;> cases b <;> decide

@[simp] theorem narrows_promote_left (a b : ElementType) : narrows (promote a b) a = false := by
  simp [narrows, promote_promote_left]

@[simp] theorem narrows_promote_right (a b : ElementType) : narrows (promote a b) b = false := by
  rw [promote_comm, narrows_promote_left]

/-- Two integer types have an integer common type. -/
theorem isIntegral_promote {a b : ElementType} (ha : a.isIntegral = true)
    (hb : b.isIntegral = true) : (promote a b).isIntegral = true := by
  revert ha hb; cases a <;> cases b <;> decide

/-- Two floating-point types have a floating-point common type. -/
theorem isReal_promote {a b : ElementType} (ha : a.isReal = true) (hb : b.isReal = true) :
    (promote a b).isReal = true := by
  revert ha hb; cases a <;> cases b <;> decide

end TensorKernel.ElementType
