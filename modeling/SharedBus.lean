import SharedBus.Scenario
import SharedBus.Slot.Order
import SharedBus.Slot.Register
import SharedBus.Proofs.Consistency
import SharedBus.Proofs.Exclusion
import SharedBus.Proofs.Requests
import SharedBus.Proofs.Wakeup
import SharedBus.Proofs.Deed.Origin
import SharedBus.Proofs.Departure
import SharedBus.Proofs.Custody
import SharedBus.Proofs.Calls
import SharedBus.Proofs.Orderly
import SharedBus.Proofs.Reservation
import SharedBus.Proofs.Reuse
import SharedBus.Proofs.Release
import SharedBus.Proofs.Evaluation
import SharedBus.Proofs.Refusal
import SharedBus.Proofs.Continuation
import SharedBus.Proofs.Workload.Run
import SharedBus.Proofs.Attribution
import SharedBus.Proofs.Reference
import SharedBus.Proofs.Draining.Takes
import SharedBus.Proofs.Draining.Effort
import SharedBus.Proofs.Draining.Pass
import SharedBus.Proofs.Draining.Silence
import SharedBus.Proofs.Draining.Run
import SharedBus.Proofs.Newcomers
import SharedBus.Proofs.Teardown.Closing
import SharedBus.Proofs.Teardown.Detach
import SharedBus.Proofs.Teardown.Run
import SharedBus.Proofs.Asking
import SharedBus.Proofs.Idle.Lone
import SharedBus.Proofs.Idle.Hook
import SharedBus.Proofs.Idle.Run
import SharedBus.Proofs.Attaching
import SharedBus.Proofs.Visit
import SharedBus.Proofs.Slot.Register
import SharedBus.Proofs.Slot.Cursor
