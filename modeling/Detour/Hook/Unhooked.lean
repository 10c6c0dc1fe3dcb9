import Detour.Hook.Guest

/-! Calling past a hook: the method as it was before it, and the implementation inherited from the
superclass. Both check the receiver and the arguments against the shorty, call, and box the result. -/
namespace Detour

open World

variable {σ : Type}

def Invoker.serve (invoke : Invoker σ) : Invoker σ := fun m receiver args => do
  World.serve .invoke
  invoke m receiver args

def checkReceiver (m : MethodAddress) (receiver : Option Ref) : Act σ CallError (Option Ref) := do
  let d ← lift (descriptor m)
  if d.isStatic then
    return none
  else
    match receiver with
    | none => throw (.nullReceiver (← lift (describe m)))
    | some r =>
      match d.declaringClass with
      | none => return some r
      | some c =>
        if ← lift (isInstance r c) then
          return some r
        else
          throw (.receiverMismatch (← lift (className c)) (← lift (typeName r)))

def callChecked (invoke : Invoker σ) (m target : MethodAddress) (receiver : Option Ref)
    (args : List (Option Ref)) : Act σ CallError (Option Ref) := do
  let d ← lift (descriptor m)
  let shorty ← Action.mapError .hook (Action.ofExcept d.shorty)
  let receiver ← checkReceiver m receiver
  let values ← Boxing.convertArguments m shorty args
  let result ← Action.mapError .runtime (invoke.serve target receiver values)
  Action.mapError .runtime (Boxing.wrapResult result)

def unhookedOf (w : World σ) (m : MethodAddress) : MethodAddress :=
  match w.recordOf m with
  | some id => .copy id
  | none => m

def callUnhooked (invoke : Invoker σ) (m : MethodAddress) (receiver : Option Ref)
    (args : List (Option Ref)) : Act σ CallError (Option Ref) := do
  callChecked invoke m (unhookedOf (← get) m) receiver args

def callPinned (invoke : Invoker σ) (m : MethodAddress) (superclass : ClassId)
    (receiver : Handle) (args : List Handle) : Act σ CallError (Option Ref) := do
  let info ← lift (method m)
  let w ← get
  match w.vm.resolve superclass info.name info.signature with
  | none =>
    throw (.runtime (.noSuchMethod (w.vm.classes.name superclass) info.name info.signature))
  | some index =>
    let target : MethodAddress := .live index
    if (← lift (descriptor target)).isStatic || w.vm.classes.isInterface superclass then
      Action.mapError .runtime (initClass superclass)
    match ← lift (resolve receiver) with
    | none => throw (.nullReceiver (← lift (describe m)))
    | some r =>
      let args ← lift (resolveAll args)
      if ← lift (isInstance r superclass) then
        callChecked invoke target target (some r) args
      else
        throw (.receiverMismatch (← lift (className superclass)) (← lift (typeName r)))

/-- Calls the implementation inherited from the superclass of the declaring class. A static method, or a
class without a superclass, gives null and calls nothing. -/
def callInherited (invoke : Invoker σ) (m : MethodAddress) (receiver : Option Ref)
    (args : List (Option Ref)) : Act σ CallError (Option Ref) := do
  let d ← lift (descriptor m)
  if d.isStatic then
    return none
  else
    match receiver with
    | none => throw (.nullReceiver (← lift (describe m)))
    | some _ =>
      withLocals [receiver] fun pinnedReceiver => withLocals args fun pinnedArgs => do
        match d.declaringClass.bind (← get).vm.classes.superclass?, pinnedReceiver with
        | some superclass, [r] => callPinned invoke m superclass r pinnedArgs
        | _, _ => return none

end Detour
