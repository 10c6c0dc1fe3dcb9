import Detour.Method.Snapshot
import Detour.Settings
import Detour.Slot
import Detour.Vm.Handle

/-! An interceptor, and the record of one hooked method. A record holds all that a hooked call needs and
outlives the interceptor that made it. -/
namespace Detour

inductive Handler
  | plain (id : Nat)
  | chain (id : Nat)
  deriving DecidableEq, Repr

structure Interceptor where
  handler : Handler
  settings : Settings
  arch : Architecture
  layout : Layout
  deriving DecidableEq

def Interceptor.create (layout : Layout) (handler : Handler) (settings : Settings) :
    Except InstallError Interceptor :=
  match layout.validate with
  | .error e => .error (.layout e)
  | .ok () => .ok ⟨handler, settings, settings.resolved, layout⟩

structure InstalledHook where
  method : MethodAddress
  snapshot : Snapshot
  reflected : Handle
  payload : Option Handle
  shorty : Shorty
  isStatic : Bool
  slots : List Slot
  interceptor : Interceptor
  deriving DecidableEq

end Detour
