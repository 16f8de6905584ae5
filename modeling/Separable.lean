import Separable.Event.Text
import Separable.Proofs.Hessian
import Separable.Proofs.CombinedValue
import Separable.Proofs.Schedule
import Separable.Proofs.Workers
import Separable.Term.Elementary
import Separable.Workspace.Registration
import Separable.Workspace.Solving
import Separable.Proofs.Untouched
import Separable.Proofs.Staleness
import Separable.Proofs.InStep
import Separable.Proofs.History
import Separable.Proofs.DoubleOrder
import Separable.Proofs.NotANumber
import Separable.Proofs.Interleaving
import Separable.Proofs.Pattern
import Separable.Proofs.Iterations
import Separable.Proofs.Restart
import Separable.Proofs.Failure
import Separable.Proofs.Alongside
import Separable.Proofs.Reports
import Separable.Proofs.HandedIn
import Separable.Proofs.Signs
import Separable.Proofs.Arithmetic
import Separable.Proofs.Directory
import Separable.Proofs.TwoSpaces
import Separable.Proofs.Refusal
import Separable.Proofs.SmoothedPenalty
import Separable.Proofs.RoundTrip
import Separable.Proofs.Additions
import Separable.Proofs.Agreement
import Separable.Proofs.Feasibility
import Separable.Proofs.Balance
import Separable.Proofs.Canonical
import Separable.Proofs.Sites
import Separable.Proofs.WriteBack
