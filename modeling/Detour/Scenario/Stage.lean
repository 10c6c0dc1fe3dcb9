import Detour.Hook.Trampoline
import Detour.Scenario.View

/-! The names and scripts of a scenario, kept as the user's part of the world, and the views of what lies
in the world. Methods, chains and callbacks are numbered in the order of their definition. A name that is
given again stays with its first method or callback, but moves to the latest class, chain, interceptor or
variable. -/
namespace Detour.Scenario

inductive Variable
  | plain (r : Option Ref)
  | pinned (h : Handle)
  deriving DecidableEq

inductive Intrusion
  | claim (word : UInt64)
  | install (interceptor : String)
  deriving DecidableEq, Repr

structure Stage where
  bodies : List BodyScript
  handlers : List HandlerScript
  hooks : List HookScript
  methodNames : List String
  chainNames : List (String × Nat)
  interceptors : List (String × Interceptor)
  transacting : List String
  bindings : List (String × Variable)
  numbered : List Nat
  notes : List Note
  depth : Nat
  intrusion : Option Intrusion

abbrev Scene := World Stage

namespace Stage

def empty : Stage := ⟨[], [], [], [], [], [], [], [], [], [], 0, none⟩

def note (n : Note) : Machine Stage Unit :=
  modify fun w => { w with user.notes := w.user.notes ++ [n] }

def hookNamed? (s : Stage) (name : String) : Option Callback :=
  (s.hooks.findIdx? (·.name = name)).bind fun id =>
    s.hooks[id]?.map fun h => ⟨id, h.priority⟩

def chainNamed? (s : Stage) (name : String) : Option Nat := s.chainNames.lookup name

def copyPrefix : List Char := ['o', 'r', 'i', 'g', ':']

/-- A name may be taken through any number of `orig:`, each of which leads to a hooked method's copy. -/
def copiesIn (cs : List Char) : Nat × List Char :=
  if _long : copyPrefix.isPrefixOf cs then
    let (copies, name) := copiesIn (cs.drop 5)
    (copies + 1, name)
  else (0, cs)
termination_by cs.length
decreasing_by
  have shorter := (List.isPrefixOf_iff_prefix.1 _long).length_le
  simp only [copyPrefix, List.length_cons, List.length_nil] at shorter
  simp only [List.length_drop]
  omega

def copyOf (w : Scene) : Nat → MethodAddress → Except Misuse MethodAddress
  | 0, m => .ok m
  | copies + 1, m => do
    match w.recordOf (← copyOf w copies m) with
    | some id => return .copy id
    | none => throw .notHooked

def methodNamed (w : Scene) (name : String) : Except Misuse MethodAddress :=
  let (copies, id) := copiesIn name.toList
  match w.user.methodNames.findIdx? (· = String.ofList id) with
  | some index => copyOf w copies (.live index)
  | none => .error .unknownMethod

def liveName (w : Scene) (index : Nat) : String := w.user.methodNames[index]?.getD "?"

def nameOf (w : Scene) : MethodAddress → String
  | .live index => liveName w index
  | .copy id =>
    match w.records[id]?.map InstalledHook.method with
    | some (.live index) =>
      if w.recordOf (.live index) = some id then "orig:" ++ liveName w index else "?"
    | _ => "?"

def methodName (m : MethodAddress) : Machine Stage String := do
  return nameOf (← get) m

end Stage

open World

def isLive (r : Option Ref) : Machine Stage Bool := do
  let w ← get
  return r.all w.vm.heap.isLive

def contentOf : Obj → Machine Stage Content
  | .instance _ => return .none
  | .text s => return .text s
  | .boxed v => return .boxed v
  | .array es => return .elements es
  | .reflected m => return .method (← Stage.methodName m)
  | .throwable m => return .message m

def viewObject (r : Option Ref) : Machine Stage ObjectView := do
  match r with
  | none => return .null
  | some r =>
    match (← get).vm.heap.get? r with
    | none => return .stale r
    | some o => return .live r (← typeName r) (← contentOf o)

def viewObjects (rs : List (Option Ref)) : Machine Stage (List ObjectView) := rs.mapM viewObject

def viewValue (v : Value) : Machine Stage ValueView := do
  match v with
  | .reference r => return .reference (← viewObject r)
  | v => return .primitive v

def viewValues (vs : List Value) : Machine Stage (List ValueView) := vs.mapM viewValue

def viewError (e : CallError) : Machine Stage ErrorView := do
  match e.thrown? with
  | none => return .call e none
  | some r => return .call e (some (← viewObject (some r)))

def viewDescriptor (m : MethodAddress) : Machine Stage DescriptorView := do
  let d ← descriptor m
  let className ← d.declaringClass.mapM className
  let numbered := (← get).user.numbered
  let nativeData := match d.nativeData with
    | .word w => NativeDataView.word w
    | .record id => match numbered.findIdx? (· = id) with
      | some number => .record number
      | none => .unnumbered id
  return ⟨d, className, nativeData⟩

def numberOf (id : Nat) : Machine Stage Nat := do
  let w ← get
  match w.user.numbered.findIdx? (· = id) with
  | some number => return number
  | none =>
    set { w with user.numbered := w.user.numbered ++ [id] }
    return w.user.numbered.length

def viewRecord (id : Nat) : Machine Stage RecordView := do
  let number ← numberOf id
  let r ← World.record id
  let payload ← match r.payload with
    | some h => resolve h
    | none => pure none
  return {
    number
    method := ← Stage.methodName r.method
    shorty := r.shorty
    isStatic := r.isStatic
    slots := r.slots
    reflected := ← viewObject (← resolve r.reflected)
    payload := ← viewObject payload
    snapshot := r.snapshot
    copy := ← viewDescriptor (.copy id) }

def viewHookedCall (i : HookedCall) : Machine Stage HandlerView := do
  let r ← i.hook
  let d ← descriptor r.method
  return {
    method := ← Stage.methodName r.method
    methodId := d.methodId.toNat
    receiver := ← viewObject (← i.receiver)
    array := ← viewObject (← i.array)
    arguments := ← viewObjects (← i.arguments)
    payload := ← viewObject (← i.payload)
    reflected := ← viewObject (← i.reflected)
    isStatic := r.isStatic
    shorty := r.shorty.display }

def viewSharedCall (p : SharedCall) : Machine Stage CallbackView := do
  let outcome ← match ← p.outcome with
    | .ok r => pure (.ok (← viewObject r))
    | .error e => pure (.error (← viewError e))
  return {
    method := ← Stage.methodName p.method
    receiver := ← viewObject (← p.receiverRef)
    arguments := ← viewObjects (← p.argRefs)
    result := ← viewObject (← p.resultRef)
    throwable := ← p.failure.mapM viewError
    outcome }

end Detour.Scenario
