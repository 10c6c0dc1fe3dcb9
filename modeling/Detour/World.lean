import Detour.Hook.Chain
import Detour.Hook.Record
import Detour.Vm.State

/-! The state that hooked calls run in: the managed runtime, the published hook records, the callback
chains, pending and raised errors, the disturbances laid on the runtime's services, and whatever user code
keeps of its own. The interception layer reaches the runtime through the services below; each may be made
to fail once, and handles on the objects of one class may be made to resolve to null. -/
namespace Detour

inductive Service
  | init | reflect | box | array | invoke
  deriving DecidableEq, Repr

def Service.name : Service → String
  | init => "init"
  | reflect => "reflect"
  | box => "box"
  | array => "array"
  | invoke => "invoke"

structure World (σ : Type) where
  vm : Vm
  records : List InstalledHook
  chains : List Chain
  pending : Option CallError
  raised : List CallError
  disturbed : List (Service × Nat)
  lost : Option ClassId
  user : σ

abbrev Machine (σ : Type) (α : Type) := Step (World σ) α

abbrev Act (σ : Type) (ε : Type) (α : Type) := Action (World σ) ε α

namespace World

variable {σ ε α : Type}

def start (vm : Vm) (user : σ) : World σ := ⟨vm, [], [], none, [], [], none, user⟩

def vmStep (step : Step Vm α) : Machine σ α :=
  Step.zoom (·.vm) (fun w vm => { w with vm }) step

def vmAction (action : Action Vm ε α) : Act σ ε α :=
  Action.zoom (·.vm) (fun w vm => { w with vm }) action

def descriptor? (w : World σ) : MethodAddress → Option Descriptor
  | .live index => w.vm.methods[index]?.map (·.descriptor)
  | .copy id => w.records[id]?.map (·.snapshot.descriptor)

def descriptor (m : MethodAddress) : Machine σ Descriptor := do
  Step.require .unknownMethod ((← get).descriptor? m)

def withDescriptor (w : World σ) (m : MethodAddress) (d : Descriptor) : World σ :=
  match m with
  | .live index =>
    { w with vm.methods := w.vm.methods.modify index fun info => { info with descriptor := d } }
  | .copy id =>
    { w with records := w.records.modify id fun r =>
        { r with snapshot := { r.snapshot with descriptor := d } } }

def setDescriptor (m : MethodAddress) (d : Descriptor) : Machine σ Unit :=
  modify fun w => w.withDescriptor m d

def method (m : MethodAddress) : Machine σ Method := do
  vmStep (Vm.method (← descriptor m).codeItem)

def isHooked (w : World σ) (m : MethodAddress) : Bool := (w.descriptor? m).any (·.isHooked)

def recordOf (w : World σ) (m : MethodAddress) : Option Nat := (w.descriptor? m).bind (·.record?)

def record (id : Nat) : Machine σ InstalledHook := do
  Step.require .unknownMethod (← get).records[id]?

def publish (w : World σ) (r : InstalledHook) : World σ := { w with records := w.records ++ [r] }

def serve (s : Service) : Act σ RuntimeError Unit := do
  let w ← get
  let others := w.disturbed.filter (·.1 ≠ s)
  match w.disturbed.lookup s with
  | none => pure ()
  | some 0 =>
    set { w with disturbed := others }
    throw (.outOfMemory s.name)
  | some (n + 1) => set { w with disturbed := (s, n) :: others }

def initClass (c : ClassId) : Act σ RuntimeError Unit := do
  serve .init
  vmAction (Vm.initClass c)

def box (v : Value) : Act σ RuntimeError Ref := do
  serve .box
  lift (vmStep (Vm.box v))

def allocateArray (length : Nat) : Act σ RuntimeError Ref := do
  serve .array
  lift <| vmStep (Vm.allocate (.array (List.replicate length none)))

def createLocal (target : Option Ref) : Machine σ Handle :=
  vmStep (Vm.createHandle .localHandle target)

def createGlobal (target : Option Ref) : Machine σ Handle :=
  vmStep (Vm.createHandle .globalHandle target)

def releaseHandle (h : Handle) : Machine σ Unit := vmStep (Vm.releaseHandle h)

def releaseAll (hs : List Handle) : Machine σ Unit := hs.forM releaseHandle

def resolve (h : Handle) : Machine σ (Option Ref) := do
  match ← vmStep (Vm.handleTarget h), (← get).lost with
  | some r, some c => return if (← vmStep (Vm.classOf r)) = c then none else some r
  | target, _ => return target

def resolveAll (hs : List Handle) : Machine σ (List (Option Ref)) := hs.mapM resolve

def withLocals (targets : List (Option Ref)) (action : List Handle → Act σ ε α) : Act σ ε α := do
  let hs ← lift (targets.mapM createLocal)
  let outcome ← lift (action hs).attempt
  lift (releaseAll hs)
  Action.ofExcept outcome

def className (c : ClassId) : Machine σ String := vmStep (Vm.className c)

def typeName (r : Ref) : Machine σ String := vmStep (Vm.typeName r)

def isInstance (r : Ref) (c : ClassId) : Machine σ Bool := vmStep (Vm.isInstance r c)

def describe (m : MethodAddress) : Machine σ String := do
  let d ← descriptor m
  let owner ← match d.declaringClass with
    | some c => className c
    | none => pure "?"
  return owner ++ "." ++ (← method m).name

def raise (e : CallError) : Machine σ Unit :=
  modify fun w => { w with raised := w.raised ++ [e], pending := some e }

def takePending : Machine σ (Option CallError) := do
  let w ← get
  set { w with pending := none }
  return w.pending

end World
end Detour
