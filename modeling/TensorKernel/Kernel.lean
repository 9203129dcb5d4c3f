import TensorKernel.Check.Outcome

/-!
# Kernels

The unit that is checked: a program with its name and its signature. Kernels
that are checked together share settings and storage tree and nothing else, so
each is checked on its own and the results come in the order of the kernels.
-/

namespace TensorKernel

structure Kernel where
  name : String
  signature : Signature
  program : Program
  deriving DecidableEq

namespace Kernel

/-- Checks a kernel. -/
def typecheck (k : Kernel) (config : Config) (storage : Storage) : Except Fault Outcome :=
  k.program.typecheck ⟨config, k.signature, storage⟩

/-- Checks kernels one by one. -/
def typecheckAll (ks : List Kernel) (config : Config) (storage : Storage) :
    Except Fault (List Outcome) :=
  ks.mapM (·.typecheck config storage)

end Kernel

end TensorKernel
