import Detour.Hook.Unhooked

/-! What a handler can ask of the call that it answers. The accessors give current locations, so they are
asked again after anything that may allocate. -/
namespace Detour

open World

variable {σ : Type}

namespace HookedCall

def hook (i : HookedCall) : Machine σ InstalledHook := World.record i.record

def receiver (i : HookedCall) : Machine σ (Option Ref) := i.boxed.receiver

def array (i : HookedCall) : Machine σ (Option Ref) := i.boxed.arrayRef

def arguments (i : HookedCall) : Machine σ (List (Option Ref)) := i.boxed.arguments

def method (i : HookedCall) : Machine σ MethodAddress := do
  return (← i.hook).method

def reflected (i : HookedCall) : Machine σ (Option Ref) := do
  resolve (← i.hook).reflected

def payload (i : HookedCall) : Machine σ (Option Ref) := do
  match (← i.hook).payload with
  | some h => resolve h
  | none => return none

def proceed (i : HookedCall) (invoke : Invoker σ) (receiver : Option Ref)
    (args : List (Option Ref)) : Act σ CallError (Option Ref) := do
  let m ← lift i.method
  callUnhooked invoke m receiver args

def inherited (i : HookedCall) (invoke : Invoker σ) (receiver : Option Ref)
    (args : List (Option Ref)) : Act σ CallError (Option Ref) := do
  let m ← lift i.method
  callInherited invoke m receiver args

end HookedCall
end Detour
