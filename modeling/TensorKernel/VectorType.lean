import TensorKernel.ElementType

/-!
# Vector types

The type of an instruction's result: an element type and a number of lanes. A
scalar is a vector of one lane, and the type every result starts with is an
unknown scalar.
-/

namespace TensorKernel

/-- `width` lanes of one element type. -/
structure VectorType where
  width : Nat
  elem : ElementType
  deriving DecidableEq

namespace VectorType

def scalar (t : ElementType) : VectorType := ⟨1, t⟩

/-- The type of a result that no rule has typed yet. -/
def unknown : VectorType := scalar .unknown

instance : Inhabited VectorType := ⟨unknown⟩

def isUnknown (t : VectorType) : Bool := t.elem.isUnknown

@[simp] theorem scalar_width (t : ElementType) : (scalar t).width = 1 := rfl

@[simp] theorem scalar_elem (t : ElementType) : (scalar t).elem = t := rfl

@[simp] theorem unknown_isUnknown : unknown.isUnknown = true := rfl

/-- Element type and lane count, as in `f32 x4`. -/
def text (t : VectorType) : String := t.elem.name ++ " x" ++ toString t.width

end VectorType

end TensorKernel
