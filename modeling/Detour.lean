import Detour.Scenario.Run
import Detour.Proofs.Frame.Transport
import Detour.Proofs.HookState
import Detour.Proofs.Hook.Boxed
import Detour.Proofs.Hook.Sharing
import Detour.Proofs.Hook.Calling
import Detour.Proofs.Hook.Seeing
import Detour.Proofs.Hook.Session
import Detour.Proofs.Hook.Entry
import Detour.Proofs.Hook.Winning
import Detour.Proofs.MovingObjects
import Detour.Proofs.Hook.Forwarding
import Detour.Proofs.Transparency
import Detour.Proofs.Hook.Turns
import Detour.Proofs.Hook.Handling
import Detour.Proofs.CallbackChain
import Detour.Proofs.PendingErrors
import Detour.Proofs.FailedInstalls
import Detour.Proofs.Interleaving
import Detour.Proofs.NestedErrors
import Detour.Proofs.PastTheHook
import Detour.Proofs.Hook.Ledger
import Detour.Proofs.Hook.Balanced
import Detour.Proofs.HandleAccounts
import Detour.Proofs.Declarations
import Detour.Proofs.Hook.Ascending
import Detour.Proofs.SuperChains
import Detour.Proofs.Frame.ClosedForm
import Detour.Proofs.ReflectiveCalls
import Detour.Proofs.InheritedCalls
import Detour.Proofs.Hook.Along
import Detour.Proofs.Hook.Books
import Detour.Proofs.RecordChanges
import Detour.Proofs.Widening
import Detour.Proofs.FrameReferences
import Detour.Proofs.ResultConversion
import Detour.Proofs.CallbackOrder
import Detour.Proofs.ShortyText
import Detour.Proofs.Frame.Geometry
import Detour.Proofs.Relocation
import Detour.Proofs.SnapshotBytes
