import TensorKernel.ElementType

/-!
# Kernel signatures

The argument slots of a kernel, in order. A slot is either a parameter, which
the kernel loads, or a return value, which it stores.
-/

namespace TensorKernel

/-- One argument slot. -/
structure Slot where
  elem : ElementType
  /-- Whether the kernel stores to the slot instead of loading from it. -/
  isReturn : Bool
  deriving DecidableEq

structure Signature where
  slots : List Slot := []
  deriving DecidableEq

namespace Signature

/-- Appends a parameter. -/
def param (s : Signature) (elem : ElementType) : Signature := ⟨s.slots ++ [⟨elem, false⟩]⟩

/-- Appends a return value. -/
def ret (s : Signature) (elem : ElementType) : Signature := ⟨s.slots ++ [⟨elem, true⟩]⟩

/-- The number of slots. -/
def size (s : Signature) : Nat := s.slots.length

def slot? (s : Signature) (i : Nat) : Option Slot := s.slots[i]?

@[simp] theorem size_param (s : Signature) (t : ElementType) : (s.param t).size = s.size + 1 := by
  simp [size, param]

@[simp] theorem size_ret (s : Signature) (t : ElementType) : (s.ret t).size = s.size + 1 := by
  simp [size, ret]

end Signature

end TensorKernel
