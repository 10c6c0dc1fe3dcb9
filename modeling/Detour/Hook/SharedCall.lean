import Detour.Hook.Guest

/-! Reading and changing the view that callbacks share. Setting a result or an error gives the call's
outcome; a callback that fails has that part of its work undone. -/
namespace Detour.SharedCall

open World

variable {σ : Type}

def create (m : MethodAddress) (receiver : Option Ref) (args : List (Option Ref)) :
    Machine σ SharedCall := do
  let receiver ← createLocal receiver
  let args ← args.mapM createLocal
  let result ← createLocal none
  return ⟨m, receiver, args, result, none, false⟩

def release (p : SharedCall) : Machine σ Unit := releaseAll (p.receiver :: p.args ++ [p.result])

def receiverRef (p : SharedCall) : Machine σ (Option Ref) := resolve p.receiver

def argument (p : SharedCall) (index : Nat) : Machine σ (Option Ref) :=
  match p.args[index]? with
  | some h => resolve h
  | none => pure none

def argRefs (p : SharedCall) : Machine σ (List (Option Ref)) := resolveAll p.args

def resultRef (p : SharedCall) : Machine σ (Option Ref) := resolve p.result

def outcome (p : SharedCall) : Machine σ (Except CallError (Option Ref)) := do
  match p.failure with
  | some e => return .error e
  | none => return .ok (← p.resultRef)

def withResult (p : SharedCall) (r : Option Ref) : Machine σ SharedCall := do
  let h ← createLocal r
  releaseHandle p.result
  return { p with result := h }

def replaceReceiver (p : SharedCall) (r : Option Ref) : Machine σ SharedCall := do
  let h ← createLocal r
  releaseHandle p.receiver
  return { p with receiver := h }

def replaceArgument (p : SharedCall) (index : Nat) (r : Option Ref) : Machine σ SharedCall := do
  match p.args[index]? with
  | none => return p
  | some old =>
    let h ← createLocal r
    releaseHandle old
    return { p with args := p.args.set index h }

def answerWith (p : SharedCall) (r : Option Ref) : Machine σ SharedCall := do
  let p ← p.withResult r
  return { p with failure := none, settled := true }

def failWith (p : SharedCall) (e : CallError) : Machine σ SharedCall := do
  let p ← p.withResult none
  return { p with failure := some e, settled := true }

def clearOutcome (p : SharedCall) : Machine σ SharedCall := do
  let p ← p.withResult none
  return { p with failure := none, settled := false }

def settle (p : SharedCall) : Except CallError (Option Ref) → Machine σ SharedCall
  | .ok r => p.withResult r
  | .error e => return { p with failure := some e }

structure SavedOutcome where
  result : Handle
  failure : Option CallError
  deriving DecidableEq

def saveOutcome (p : SharedCall) : Machine σ SavedOutcome := do
  return ⟨← createLocal (← p.resultRef), p.failure⟩

def rollBack (p : SharedCall) (last : SavedOutcome) : Machine σ SharedCall := do
  releaseHandle p.result
  return { p with result := last.result, failure := last.failure, settled := true }

end Detour.SharedCall
