import Detour.Architecture
import Detour.Step
import Detour.Vm.Handle
import Detour.Vm.Heap
import Detour.Vm.Method

/-! The state of a managed runtime and what it offers: classes, objects, handles and methods. With the
moving collector on, every allocation and every run of a class initializer first relocates all objects;
handles and array elements follow, plain references do not. -/
namespace Detour

structure Vm where
  arch : Architecture
  layout : Layout
  classes : ClassTable
  heap : Heap
  handles : HandleTable
  moving : Bool
  collections : Nat
  methods : List Method
  deriving DecidableEq

namespace Vm

def start (arch : Architecture) (layout : Layout) : Vm :=
  ⟨arch, layout, .standard, .empty, .empty, false, 0, []⟩

def collect : Step Vm Unit := do
  let vm ← get
  let heap ← Step.require .referencesExhausted vm.heap.relocate?
  set { vm with
    heap
    handles := vm.handles.moveBy vm.heap.objects.size
    collections := vm.collections + 1 }

def collectIfMoving : Step Vm Unit := do
  if (← get).moving then collect

def allocate (o : Obj) : Step Vm Ref := do
  collectIfMoving
  let vm ← get
  let (r, heap) ← Step.require .referencesExhausted (vm.heap.push? o)
  set { vm with heap }
  return r

def object (r : Ref) : Step Vm Obj := do
  Step.require (.staleReference r) ((← get).heap.get? r)

def classOf (r : Ref) : Step Vm ClassId := do
  match ← object r with
  | .instance c => return c
  | .text _ => return .string
  | .boxed v => Step.require .boxingNonPrimitive (ClassId.wrapper? v.tag)
  | .array _ => return .objectArray
  | .reflected _ => return .method
  | .throwable _ => return .throwable

def className (c : ClassId) : Step Vm String := do
  return (← get).classes.name c

def typeName (r : Ref) : Step Vm String := do
  className (← classOf r)

def isInstance (r : Ref) (c : ClassId) : Step Vm Bool := do
  let source ← classOf r
  return (← get).classes.isAssignable source c

def classInfo (c : ClassId) : Step Vm Class := do
  Step.require .unknownClass ((← get).classes.get? c)

def initClass (c : ClassId) : Action Vm RuntimeError Unit := do
  let info ← classInfo c
  if !info.initialized then
    collectIfMoving
    let started (i : Class) : Class := { i with initCount := i.initCount + 1 }
    modify fun vm => { vm with classes := vm.classes.modify c started }
    if info.initFails then
      throw (.classInitFailed info.name)
    let done (i : Class) : Class := { i with initialized := true }
    modify fun vm => { vm with classes := vm.classes.modify c done }

def box (v : Value) : Step Vm Ref :=
  if v.tag.isPrimitive then allocate (.boxed v) else Step.fault .boxingNonPrimitive

def unbox (r : Ref) : Step Vm (Option Value) := do
  match ← object r with
  | .boxed v => return some v
  | _ => return none

def elements (r : Ref) : Step Vm (List (Option Ref)) := do
  match ← object r with
  | .array es => return es
  | _ => Step.fault (.notAnArray r)

def setElement (array : Ref) (index : Nat) (value : Option Ref) : Step Vm Unit := do
  if let some v := value then
    let _ ← object v
  let es ← elements array
  if index < es.length then
    modify fun vm => { vm with heap := vm.heap.set array (.array (es.set index value)) }
  else Step.fault (.elementIndex array index)

def createHandle (kind : HandleKind) (target : Option Ref) : Step Vm Handle := do
  if let some r := target then
    let _ ← object r
  let vm ← get
  let (h, handles) := vm.handles.create kind target
  set { vm with handles }
  return h

def handleTarget (h : Handle) : Step Vm (Option Ref) := do
  let entry ← Step.require (.releasedHandle h.id) ((← get).handles.find? h)
  return entry.target

def releaseHandle (h : Handle) : Step Vm Unit := do
  let _ ← handleTarget h
  modify fun vm => { vm with handles := vm.handles.release h }

def method (number : UInt64) : Step Vm Method := do
  Step.require .unknownMethod ((← get).methods[number.toNat - 1]?)

def resolve (vm : Vm) (c : ClassId) (name signature : String) : Option Nat :=
  (vm.classes.lineage c).findSome? fun owner =>
    vm.methods.findIdx? fun m =>
      m.declaredIn = owner ∧ m.name = name ∧ m.signature = signature

end Vm
end Detour
