import SealedCall.Catalogue
import SealedCall.CommandLine.Run
import SealedCall.Endpoint
import SealedCall.KeyFile
import SealedCall.Main
import SealedCall.Proofs.Delivery
import SealedCall.Service
import SealedCall.Scheduling
import SealedCall.Telemetry
import SealedCall.Variables
import SealedCall.Proofs.Endpoint
import SealedCall.Proofs.Isolation.History
import SealedCall.Proofs.SealedAndOpen
import SealedCall.Proofs.TrustBoundary
import SealedCall.Proofs.FirstEnrolment
import SealedCall.Proofs.Nonces.Run
import SealedCall.Proofs.Concurrency.Together
import SealedCall.Proofs.Snapshot.Canonical
import SealedCall.Proofs.UsableIds
import SealedCall.Proofs.Spans
import SealedCall.Proofs.KeyFile
import SealedCall.Proofs.RosterViews
import SealedCall.Proofs.DerivedIds
import SealedCall.Proofs.Discretion.Course
