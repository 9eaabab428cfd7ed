import ProblemIntake.Proofs.Canonical.Agreement
import ProblemIntake.Proofs.Canonical.Datatypes
import ProblemIntake.Proofs.Canonical.Lossless
import ProblemIntake.Proofs.Canonical.Recall
import ProblemIntake.Proofs.Canonical.Roles
import ProblemIntake.Proofs.Canonical.Scopes
import ProblemIntake.Proofs.Header.Changes
import ProblemIntake.Proofs.Pool.Sharing
import ProblemIntake.Proofs.Stream.Flat
import ProblemIntake.Proofs.Stream.Isolation
import ProblemIntake.Proofs.Stream.Log
import ProblemIntake.Proofs.Stream.Settings
import ProblemIntake.Proofs.Stream.Shortfall
import ProblemIntake.Proofs.Text.Expressions
import ProblemIntake.Proofs.Text.Paths
