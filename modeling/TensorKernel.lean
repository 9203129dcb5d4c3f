import TensorKernel.Check.Steps
import TensorKernel.Config.File
import TensorKernel.Diagnostic.Excerpt
import TensorKernel.Kernel
import TensorKernel.Program.Builder
import TensorKernel.Program.Changes
import TensorKernel.Program.Listing
import TensorKernel.Proofs.Account
import TensorKernel.Proofs.Addressing
import TensorKernel.Proofs.Division
import TensorKernel.Proofs.Growth
import TensorKernel.Proofs.Lanes
import TensorKernel.Proofs.Listing
import TensorKernel.Proofs.Refusals
import TensorKernel.Proofs.Safety
import TensorKernel.Proofs.Scalars
import TensorKernel.Proofs.Slots
import TensorKernel.Proofs.Stable
import TensorKernel.Proofs.Storing
import TensorKernel.Proofs.Timeline
import TensorKernel.Proofs.Totality
import TensorKernel.Proofs.Upheld
