import Detour.Hook.Install
import Detour.Scenario.Stage

/-! Running scripts: the state of one activation, handles that live as long as a part of a script, and calls
through a method's entry point. What a list of terms gives is pinned until all of it is known, and released if
the rest fails. -/
namespace Detour.Scenario

open World

inductive Context
  | step
  | body (receiver : Option Ref) (args : List Value)
  | handler (i : HookedCall)
  | callback (p : SharedCall)

structure Activation where
  context : Context
  locals : List (String × Handle)

abbrev Script (α : Type) := Action (Scene × Activation) CallError α

variable {α : Type}

namespace Script

def world (m : Machine Stage α) : Script α :=
  lift (Step.zoom Prod.fst (fun s w => (w, s.2)) m)

def act (a : Act Stage CallError α) : Script α :=
  Action.zoom Prod.fst (fun s w => (w, s.2)) a

def misuse (m : Misuse) : Script α := throw m.error

def inContext (select : Context → Option α) (otherwise : Misuse) : Script α := do
  match select (← get).2.context with
  | some a => return a
  | none => misuse otherwise

def hookedCall? : Context → Option HookedCall
  | .handler i => some i
  | _ => none

def sharedCall? : Context → Option SharedCall
  | .callback p => some p
  | _ => none

def arguments? : Context → Option (List Value)
  | .body _ args => some args
  | _ => none

def setSharedCall (p : SharedCall) : Script Unit :=
  modify fun (w, a) => (w, { a with context := .callback p })

def pin (r : Option Ref) : Script Handle := world (createLocal r)

def unpin (h : Handle) : Script Unit := world (releaseHandle h)

def current (h : Handle) : Script (Option Ref) := world (vmStep (Vm.handleTarget h))

def guarding (h : Handle) (rest : Script α) : Script α := do
  match ← lift rest.attempt with
  | .ok a => return a
  | .error e =>
    unpin h
    throw e

def releasing (h : Handle) (rest : Script α) : Script α := do
  let a ← guarding h rest
  unpin h
  return a

def collectPinned (hs : List Handle) : Script (List (Option Ref)) := do
  let refs ← hs.mapM current
  hs.forM unpin
  return refs

def requireLive (r : Option Ref) : Script (Option Ref) := do
  if ← world (isLive r) then
    return r
  else
    misuse .staleReference

def requireLiveValue (v : Value) : Script Value := do
  match v with
  | .reference r =>
    let _ ← requireLive r
    return v
  | _ => return v

end Script

open Script

inductive Held
  | value (v : Value)
  | pinned (h : Handle)
  deriving DecidableEq

namespace Held

def of (v : Value) : Script Held := do
  match v with
  | .reference r => return .pinned (← pin (← requireLive r))
  | v => return .value v

def release : Held → Script Unit
  | value _ => return ()
  | pinned h => unpin h

def current : Held → Script Value
  | value v => return v
  | pinned h => do return .reference (← Script.current h)

def guarding (held : Held) (rest : Script α) : Script α :=
  match held with
  | value _ => rest
  | pinned h => Script.guarding h rest

def collect (held : List Held) : Script (List Value) := do
  let values ← held.mapM current
  held.forM release
  return values

end Held

namespace Lookup

variable {β : Type}

def ofMisuse : Except Misuse β → Act Stage CallError β
  | .ok b => pure b
  | .error m => throw m.error

def require (m : Misuse) : Option β → Act Stage CallError β
  | some b => pure b
  | none => throw m.error

def classId (name : String) : Act Stage CallError ClassId := do
  require .unknownClass ((← get).vm.classes.latest? name)

def method (name : String) : Act Stage CallError MethodAddress := do
  ofMisuse (Stage.methodNamed (← get) name)

def interceptor (name : String) : Act Stage CallError Interceptor := do
  require .unknownInterceptor ((← get).user.interceptors.lookup name)

def chain (name : String) : Act Stage CallError Nat := do
  require .unknownChain ((← get).user.chainNamed? name)

end Lookup

def maxDepth : Nat := 40

def checkReference (r : Option Ref) : Act Stage CallError Unit := do
  if !(← lift (isLive r)) then
    throw Misuse.staleReference.error

def checkArgument (declared : Option Tag) (v : Value) : Act Stage CallError Unit :=
  match v with
  | .reference r => checkReference r
  | _ => if declared = some .reference then throw Misuse.argumentKind.error else pure ()

def checkCall (m : MethodAddress) (receiver : Option Ref) (args : List Value) :
    Act Stage CallError Unit := do
  checkReference receiver
  match (← lift (descriptor m)).shorty with
  | .error _ => args.forM (checkArgument none)
  | .ok shorty =>
    if args.length ≠ shorty.params.length then
      throw Misuse.argumentCount.error
    (shorty.params.zip args).forM fun (t, v) => checkArgument (some t) v

def enter (invoke : Invoker Stage) (m : MethodAddress) (receiver : Option Ref) (args : List Value) :
    Act Stage CallError Value := do
  checkCall m receiver args
  let depth := (← get).user.depth
  if maxDepth ≤ depth then
    throw Misuse.callDepth.error
  modify fun w => { w with user.depth := depth + 1 }
  let outcome ← lift (invoke m receiver args).attempt
  modify fun w => { w with user.depth := depth }
  Action.mapError .runtime (Action.ofExcept outcome)

def intrude (m : MethodAddress) : Act Stage RuntimeError Unit := do
  let w ← get
  set { w with user.intrusion := none }
  match w.user.intrusion with
  | none => pure ()
  | some (.claim word) =>
    let d ← lift (descriptor m)
    lift (setDescriptor m { d with nativeData := .word word })
  | some (.install name) =>
    if w.user.transacting.contains name then
      lift (Stage.note (.nested (some (.call Misuse.transactionOpen.error none))))
    else
      match w.user.interceptors.lookup name with
      | none => pure ()
      | some i =>
        match ← lift (install (fun _ => pure ()) i m none).attempt with
        | .ok _ => lift (Stage.note (.nested none))
        | .error e => lift (Stage.note (.nested (some (.install e))))

def transacting (name : String) (step : Interceptor → Machine Stage α) :
    Act Stage CallError α := do
  let i ← Lookup.interceptor name
  if (← get).user.transacting.contains name then
    throw Misuse.transactionOpen.error
  modify fun w => { w with user.transacting := name :: w.user.transacting }
  let a ← lift (step i)
  modify fun w => { w with user.transacting := w.user.transacting.erase name }
  return a

end Detour.Scenario
