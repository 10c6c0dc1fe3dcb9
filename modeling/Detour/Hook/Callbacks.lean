import Detour.Hook.HookedCall
import Detour.Hook.SharedCall

/-! A hooked call answered by callbacks. Each `before` runs in turn until one gives the outcome; if none
does, the unhooked implementation is called; then the `after` of every callback that ran, the last first.
A callback that fails leaves the outcome as it was. -/
namespace Detour.Chain

open World

variable {σ : Type}

def runBefores (g : Guest σ) (invoke : Invoker σ) :
    List Callback → List Callback → SharedCall → Machine σ (List Callback × SharedCall)
  | [], ran, p => return (ran, p)
  | h :: hooks, ran, p => do
    match ← g.before h.id invoke p with
    | (.error _, p) =>
      let p ← p.clearOutcome
      runBefores g invoke hooks (h :: ran) p
    | (.ok (), p) =>
      if p.settled then
        return (h :: ran, p)
      else
        runBefores g invoke hooks (h :: ran) p

def runAfters (g : Guest σ) (invoke : Invoker σ) :
    List Callback → SharedCall → Machine σ SharedCall
  | [], p => return p
  | h :: hooks, p => do
    let last ← p.saveOutcome
    match ← g.after h.id invoke p with
    | (.error _, p) =>
      let p ← p.rollBack last
      runAfters g invoke hooks p
    | (.ok (), p) =>
      releaseHandle last.result
      runAfters g invoke hooks p

def around (g : Guest σ) (invoke : Invoker σ) (i : HookedCall) (hooks : List Callback)
    (p : SharedCall) : Machine σ SharedCall := do
  let (ran, p) ← runBefores g invoke hooks [] p
  let p ← if p.settled then pure p else do
    let receiver ← p.receiverRef
    let args ← p.argRefs
    let outcome ← (i.proceed invoke receiver args).attempt
    p.settle outcome
  runAfters g invoke ran p

def answer (g : Guest σ) (invoke : Invoker σ) (chain : Nat) (i : HookedCall) :
    Act σ CallError (Option Ref) := do
  let m ← lift i.method
  let c ← lift (Step.require .unknownMethod (← get).chains[chain]?)
  match c.callbacks m with
  | [] =>
    let receiver ← lift i.receiver
    let args ← lift i.arguments
    i.proceed invoke receiver args
  | hooks =>
    let args ← lift i.arguments
    let receiver ← lift i.receiver
    let p ← lift (SharedCall.create m receiver args)
    let p ← lift (around g invoke i hooks p)
    let outcome ← lift p.outcome
    lift p.release
    Action.ofExcept outcome

end Detour.Chain
