import CtorArity.Batch
import CtorArity.Loader
import CtorArity.LogFormat
import CtorArity.Proofs.Handle
import CtorArity.Proofs.Outline
import CtorArity.Proofs.Links
import CtorArity.Proofs.Walk
import CtorArity.Proofs.Report
import CtorArity.Proofs.Binding
import CtorArity.Proofs.Lowering
import CtorArity.Proofs.Threading
import CtorArity.Proofs.Agreement
import CtorArity.Proofs.Reshape
import CtorArity.Proofs.Widening
import CtorArity.Proofs.TopLevel
import CtorArity.Proofs.Wording
import CtorArity.Proofs.Accepted
import CtorArity.Proofs.Rendering
import CtorArity.Proofs.Diagnostics
import CtorArity.Proofs.Cancelling
import CtorArity.Proofs.Naming
import CtorArity.Proofs.Reordering
import CtorArity.Proofs.Alike
import CtorArity.Proofs.Scopes
import CtorArity.Proofs.Appending
import CtorArity.Proofs.Obligations
import CtorArity.Proofs.Filtering
import CtorArity.Proofs.Retelling
import CtorArity.Proofs.Layout
import CtorArity.Proofs.DirectBase
import CtorArity.Proofs.Programs
import CtorArity.Proofs.SourceOrder
import CtorArity.Proofs.Tracing
import CtorArity.Proofs.Positional
import CtorArity.Proofs.Logging
import CtorArity.Proofs.DefaultScope
import CtorArity.Proofs.LateBinding
import CtorArity.Proofs.Nesting
import CtorArity.Proofs.Substitution
