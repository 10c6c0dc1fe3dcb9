import Detour.Scenario.Script

/-! What the terms of a script denote, in the context that the script runs in. Every object that a term
gives is live. -/
namespace Detour.Scenario

open World Script

namespace Arithmetic

def add? : Value → Value → Option Value
  | .int a, .int b => some (.int (a + b))
  | .long a, .long b => some (.long (a + b))
  | _, _ => none

def mul? : Value → Value → Option Value
  | .int a, .int b => some (.int (a * b))
  | .long a, .long b => some (.long (a * b))
  | _, _ => none

end Arithmetic

namespace Terms

def variableRef (name : String) : Script (Option Ref) := do
  match (← get).1.user.bindings.lookup name with
  | none => misuse .unknownVariable
  | some (.plain r) => return r
  | some (.pinned h) => current h

def localRef (name : String) : Script (Option Ref) := do
  match (← get).2.locals.lookup name with
  | none => misuse .unknownLocal
  | some h => current h

def box (v : Value) : Script (Option Ref) := do
  if !v.tag.isPrimitive then
    misuse .boxingNonPrimitive
  else
    match (← get).2.context with
    | .handler _ | .callback _ => some <$> act (Action.mapError .runtime (World.box v))
    | .step | .body _ _ => some <$> world (vmStep (Vm.box v))

def allocate (o : Obj) : Script (Option Ref) := some <$> world (vmStep (Vm.allocate o))

def element (array : Option Ref) (index : Nat) : Script (Option Ref) := do
  match array.bind (← get).1.vm.heap.get? with
  | some (.array es) => return es[index]?.join
  | _ => misuse .notArray

def receiver : Script (Option Ref) := do
  match (← get).2.context with
  | .step => misuse .badObject
  | .body r _ => return r
  | .handler i => world i.receiver
  | .callback p => world p.receiverRef

def argument (index : Nat) : Script (Option Ref) := do
  match (← get).2.context with
  | .step => misuse .badObject
  | .body _ args =>
    match args[index]? with
    | some (.reference r) => return r
    | _ => misuse .notReference
  | .handler i => return (← world i.arguments)[index]?.join
  | .callback p => world (p.argument index)

def argumentValue (index : Nat) : Script Value := do
  let args ← inContext arguments? .badValue
  match args[index]? with
  | none => misuse .noArgument
  | some v => return v

def unboxed (r : Option Ref) : Script Value := do
  match r with
  | none => return .void
  | some r => return (← world (vmStep (Vm.unbox r))).getD .void

end Terms

mutual

def ObjectTerm.eval (invoke : Invoker Stage) : ObjectTerm → Script (Option Ref)
  | .null => return none
  | .variable name => Terms.variableRef name
  | .scoped name => Terms.localRef name
  | .box v => do Terms.box (← v.eval invoke)
  | .text s => Terms.allocate (.text s)
  | .throwable m => Terms.allocate (.throwable m)
  | .instance name => do Terms.allocate (.instance (← act (Lookup.classId name)))
  | .deref v => do
    match ← v.eval invoke with
    | .reference r => return r
    | _ => misuse .notReference
  | .element a index => do Terms.element (← requireLive (← a.eval invoke)) index
  | .receiver => Terms.receiver
  | .argument index => Terms.argument index
  | .result => do
    let p ← inContext sharedCall? .badObject
    world p.resultRef
  | .array => do
    let i ← inContext hookedCall? .badObject
    world i.array
  | .payload => do
    let i ← inContext hookedCall? .badObject
    world i.payload
  | .reflected => do
    let i ← inContext hookedCall? .badObject
    world i.reflected
  | .proceed r args => do
    let i ← inContext hookedCall? .badObject
    let h ← pin (← requireLive (← r.eval invoke))
    releasing h do
      let args ← args.eval invoke i
      act (i.proceed invoke (← current h) args)
  | .inherited r args => do
    let i ← inContext hookedCall? .badObject
    let h ← pin (← requireLive (← r.eval invoke))
    releasing h do
      let args ← args.eval invoke i
      act (i.inherited invoke (← current h) args)
  | .unknown => misuse .badObject

def ArgumentTerms.eval (invoke : Invoker Stage) (i : HookedCall) :
    ArgumentTerms → Script (List (Option Ref))
  | .same => world i.arguments
  | .list terms => do collectPinned (← ObjectTerm.pinAll invoke terms)

def ObjectTerm.pinAll (invoke : Invoker Stage) : List ObjectTerm → Script (List Handle)
  | [] => return []
  | t :: terms => do
    let h ← pin (← requireLive (← t.eval invoke))
    let hs ← guarding h (ObjectTerm.pinAll invoke terms)
    return h :: hs

def ValueTerm.eval (invoke : Invoker Stage) : ValueTerm → Script Value
  | .literal v => return v
  | .reference object => do return .reference (← requireLive (← object.eval invoke))
  | .unbox object => do Terms.unboxed (← requireLive (← object.eval invoke))
  | .argument index => Terms.argumentValue index
  | .add a b => do
    let a ← a.eval invoke
    let b ← b.eval invoke
    match Arithmetic.add? a b with
    | some v => return v
    | none => misuse .operands
  | .mul a b => do
    let a ← a.eval invoke
    let b ← b.eval invoke
    match Arithmetic.mul? a b with
    | some v => return v
    | none => misuse .operands
  | .call method r args => do
    let m ← act (Lookup.method method)
    let h ← pin (← requireLive (← r.eval invoke))
    releasing h do
      let args ← Held.collect (← ValueTerm.holdAll invoke args)
      act (enter invoke m (← current h) args)
  | .unknown => misuse .badValue

def ValueTerm.holdAll (invoke : Invoker Stage) : List ValueTerm → Script (List Held)
  | [] => return []
  | t :: terms => do
    let held ← Held.of (← t.eval invoke)
    let rest ← held.guarding (ValueTerm.holdAll invoke terms)
    return held :: rest

end

def ObjectTerm.evalAll (invoke : Invoker Stage) (terms : List ObjectTerm) :
    Script (List (Option Ref)) := do
  collectPinned (← ObjectTerm.pinAll invoke terms)

def ValueTerm.evalAll (invoke : Invoker Stage) (terms : List ValueTerm) : Script (List Value) := do
  Held.collect (← ValueTerm.holdAll invoke terms)

def ObjectTerm.evalLive (invoke : Invoker Stage) (t : ObjectTerm) : Script (Option Ref) := do
  requireLive (← t.eval invoke)

def thrownObject (invoke : Invoker Stage) (t : ObjectTerm) : Script Ref := do
  match ← t.evalLive invoke with
  | some r => return r
  | none => misuse .nullError

def ErrorTerm.eval (invoke : Invoker Stage) : ErrorTerm → Script CallError
  | .handler object => do return .handler (← thrownObject invoke object)
  | .exception object => do return .runtime (.exception (← thrownObject invoke object))
  | .plain e => return e
  | .unknown => return Misuse.badError.error

end Detour.Scenario
