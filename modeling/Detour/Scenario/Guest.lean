import Detour.Scenario.Eval

/-! The user code of a scenario: method bodies, handlers and callbacks that run their scripts. The locals
of a script are released when it ends, however it ends. -/
namespace Detour.Scenario

open World Script

variable {α : Type}

namespace Statements

def noteAll (n : Note) : Script Unit := world (Stage.note n)

def view : Script Unit := do
  match (← get).2.context with
  | .step => noteAll .nothing
  | .body receiver args =>
    noteAll (.body (← world (viewObject receiver)) (← world (viewValues args)))
  | .handler i => noteAll (.handler (← world (viewHookedCall i)))
  | .callback p => noteAll (.callback (← world (viewSharedCall p)))

def keep (name : String) (r : Option Ref) : Script Unit := do
  let h ← pin r
  let old := (← get).2.locals.lookup name
  modify fun (w, a) => (w, { a with locals := (name, h) :: a.locals.filter (·.1 ≠ name) })
  match old with
  | some h => unpin h
  | none => return ()

def noteHandles : Script Unit := do
  let table := (← get).1.vm.handles
  noteAll (.handles (table.ofKind .localHandle).length (table.ofKind .globalHandle).length)

def setMoving (on : Bool) : Script Unit :=
  modify fun (w, a) => ({ w with vm.moving := on }, a)

structure Registration where
  chain : Nat
  method : MethodAddress
  hook : Callback

def registration? (w : Scene) (chain method hook : String) : Option Registration := do
  let c ← w.user.chainNamed? chain
  let m ← (Stage.methodNamed w method).toOption
  let h ← w.user.hookNamed? hook
  return ⟨c, m, h⟩

def registrationNames : String := "chain, method or hook"

def change (r : Registration) (f : Chain → MethodAddress → Callback → Bool × Chain) :
    Machine Stage Bool := do
  let w ← get
  let c ← Step.require .unknownMethod w.chains[r.chain]?
  let (changed, c) := f c r.method r.hook
  set { w with chains := w.chains.set r.chain c }
  return changed

def reregister (chain method hook : String) (f : Chain → MethodAddress → Callback → Bool × Chain) :
    Script Unit := do
  match registration? (← get).1 chain method hook with
  | none => noteAll (.refused registrationNames)
  | some r => noteAll (.flag (← world (change r f)))

def install (interceptor method : String) : Script Unit := do
  let m ← act (Lookup.method method)
  let (result, _) ← act <| transacting interceptor fun i =>
    (Transaction.begin i).install intrude m none
  match result with
  | .ok id => noteAll (.installed (.ok (← world (numberOf id))))
  | .error e => noteAll (.installed (.error (.install e)))

def changeSharedCall (f : SharedCall → Machine Stage SharedCall) : Script Unit := do
  let p ← inContext sharedCall? .badStatement
  setSharedCall (← world (f p))

def agree (invoke : Invoker Stage) (compared : List ValueTerm) : Script Bool := do
  match ← ValueTerm.evalAll invoke (compared.take 2) with
  | [a, b] => return a.equals b
  | _ => return false

end Statements

mutual

def Statement.run (invoke : Invoker Stage) : Statement → Script Unit
  | .note content => Statements.noteAll (.content content)
  | .view => Statements.view
  | .see o => do
    let r ← o.evalLive invoke
    Statements.noteAll (.object (← world (viewObject r)))
  | .seeValue t => do
    let v ← t.eval invoke
    Statements.noteAll (.value (← world (viewValue v)))
  | .keep name o => do Statements.keep name (← o.evalLive invoke)
  | .eval o => do
    let _ ← o.evalLive invoke
  | .moving on => Statements.setMoving on
  | .handles => Statements.noteHandles
  | .when compared same other => do
    if ← Statements.agree invoke compared then
      Statement.runAll invoke same
    else
      Statement.runAll invoke other
  | .attempt body => do
    match ← lift (Statement.runAll invoke body).attempt with
    | .ok () => pure ()
    | .error e => Statements.noteAll (.caught (← world (viewError e)))
  | .raise e => do throw (← e.eval invoke)
  | .register chain method hook => Statements.reregister chain method hook Chain.register
  | .unregister chain method hook => Statements.reregister chain method hook Chain.unregister
  | .install interceptor method => Statements.install interceptor method
  | .setReceiver o => do
    let r ← o.evalLive invoke
    Statements.changeSharedCall fun p => p.replaceReceiver r
  | .setResult o => do
    let r ← o.evalLive invoke
    Statements.changeSharedCall fun p => p.answerWith r
  | .setArgument index o => do
    let r ← o.evalLive invoke
    Statements.changeSharedCall fun p => p.replaceArgument index r
  | .setThrowable t => do
    let e ← t.eval invoke
    Statements.changeSharedCall fun p => p.failWith e
  | .unknown => misuse .badStatement

def Statement.runAll (invoke : Invoker Stage) : List Statement → Script Unit
  | [] => return ()
  | s :: statements => do
    s.run invoke
    Statement.runAll invoke statements

end

def runScript {β : Type} (context : Context) (script : Script α)
    (finish : Except CallError α → Machine Stage β) : Machine Stage (β × Context) := fun w => do
  let (outcome, w, a) ← script.run (w, ⟨context, []⟩)
  let (result, w) ← finish outcome w
  let ((), w) ← releaseAll (a.locals.map (·.2)) w
  return ((result, a.context), w)

def raisedByBody (e : CallError) : Machine Stage RuntimeError :=
  match e with
  | .runtime e => return e
  | e => managedException e

def runBody (index : Nat) (invoke : Invoker Stage) (receiver : Option Ref) (args : List Value) :
    Act Stage RuntimeError Value := do
  let script ← lift (Step.require .unknownMethod (← get).user.bodies[index]?)
  let run : Script Value := do
    Statement.runAll invoke script.statements
    requireLiveValue (← script.result.eval invoke)
  let (result, _) ← lift <| runScript (.body receiver args) run fun outcome => do
    match outcome with
    | .ok v => return .ok v
    | .error e => return .error (← raisedByBody e)
  Action.ofExcept result

def runHandler (id : Nat) (invoke : Invoker Stage) (i : HookedCall) :
    Act Stage CallError (Option Ref) := do
  let script ← lift (Step.require .unknownMethod (← get).user.handlers[id]?)
  let run : Script (Option Ref) := do
    Statement.runAll invoke script.statements
    script.result.evalLive invoke
  let (result, _) ← lift (runScript (.handler i) run pure)
  Action.ofExcept result

def runCallback (statements : List Statement) (entered : Note) (invoke : Invoker Stage) :
    CallbackCode Stage := fun p => do
  Stage.note entered
  let (result, context) ← runScript (.callback p) (Statement.runAll invoke statements) pure
  match context with
  | .callback p => return (result, p)
  | _ => return (result, p)

def runBefore (id : Nat) (invoke : Invoker Stage) : CallbackCode Stage := fun p => do
  let hook ← Step.require .unknownMethod (← get).user.hooks[id]?
  if hook.overridesBefore then
    runCallback hook.before (.before hook.name) invoke p
  else
    return (.ok (), p)

def runAfter (id : Nat) (invoke : Invoker Stage) : CallbackCode Stage := fun p => do
  let hook ← Step.require .unknownMethod (← get).user.hooks[id]?
  if hook.overridesAfter then
    runCallback hook.after (.after hook.name) invoke p
  else
    return (.ok (), p)

def guest : Guest Stage := ⟨runBody, runHandler, runBefore, runAfter⟩

/-- A bound on nested calls that no scenario meets. A call that does not count towards `maxDepth` leads
from a method to a copy of it or to its superclass's, so few of them lie between two that count; the factor
leaves room for the records that scripts add meanwhile. -/
def nesting (w : Scene) : Nat :=
  (maxDepth + 1) * (w.vm.methods.length + w.records.length + 2) * 1024

def invoker (w : Scene) : Invoker Stage := call guest (nesting w)

end Detour.Scenario
