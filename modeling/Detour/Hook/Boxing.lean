import Detour.Frame
import Detour.World

/-! Between raw argument words and managed objects. Every reference is pinned before the first allocation,
because an allocation may move whatever the frame points at. The array is found through its handle again after
each allocation, and nothing stays pinned where boxing fails. -/
namespace Detour

variable {σ : Type}

structure BoxedFrame where
  hasReceiver : Bool
  array : Option Handle
  references : List (Nat × Handle)
  deriving DecidableEq, Repr

namespace BoxedFrame

open World

def handles (b : BoxedFrame) : List Handle := b.references.map (·.2) ++ b.array.toList

def receiver (b : BoxedFrame) : Machine σ (Option Ref) :=
  match b.hasReceiver, b.references with
  | true, (_, h) :: _ => resolve h
  | _, _ => pure none

def arrayRef (b : BoxedFrame) : Machine σ (Option Ref) :=
  match b.array with
  | some h => resolve h
  | none => pure none

def arguments (b : BoxedFrame) : Machine σ (List (Option Ref)) := do
  match ← b.arrayRef with
  | some r => vmStep (Vm.elements r)
  | none => return []

def release (b : BoxedFrame) : Machine σ Unit := releaseAll b.handles

end BoxedFrame

namespace Boxing

open World

def pinReferences (frame : Frame) : Nat → List Slot → Machine σ (List (Nat × Handle))
  | _, [] => return []
  | index, s :: slots => do
    if s.tag = .reference then
      let r ← Step.ofExcept (frame.referenceAt s)
      let h ← createLocal r
      return (index, h) :: (← pinReferences frame (index + 1) slots)
    else pinReferences frame (index + 1) slots

def fillArray (frame : Frame) (array : Handle) :
    (index : Nat) → List Slot → List Handle → Act σ RuntimeError Unit
  | _, [], _ => pure ()
  | index, s :: slots, references => do
    let isReference := s.tag = .reference
    let element ← if isReference then
        match references with
        | h :: _ => lift (resolve h)
        | [] => pure none
      else do
        let v ← lift (Step.ofExcept (frame.valueAt s))
        some <$> World.box v
    match ← lift (resolve array) with
    | none => throw (.outOfMemory "argument array")
    | some a =>
      lift (vmStep (Vm.setElement a index element))
      fillArray frame array (index + 1) slots (if isReference then references.drop 1 else references)

def boxArray (frame : Frame) (params : List Slot) (references : List Handle) :
    Act σ RuntimeError Handle := do
  let array ← allocateArray params.length
  let h ← lift (createLocal (some array))
  match ← lift (fillArray frame h 0 params references).attempt with
  | .ok () => return h
  | .error e =>
    lift (releaseHandle h)
    throw e

def ofFrame (frame : Frame) (slots : List Slot) (isStatic emptyArgsArray : Bool) :
    Act σ RuntimeError BoxedFrame := do
  let first := if isStatic then 0 else 1
  let references ← lift (pinReferences frame 0 slots)
  let params := slots.drop first
  if params.isEmpty && !emptyArgsArray then
    return ⟨!isStatic, none, references⟩
  else
    let ofParams := (references.filter (first ≤ ·.1)).map (·.2)
    match ← lift (boxArray frame params ofParams).attempt with
    | .ok h => return ⟨!isStatic, some h, references⟩
    | .error e =>
      lift (releaseAll (references.map (·.2)))
      throw e

def fixReferences (frame : Frame) (slots : List Slot) : List (Nat × Handle) → Machine σ Frame
  | [] => return frame
  | (index, h) :: rest => do
    let r ← resolve h
    match slots[index]? with
    | some s =>
      let frame ← Step.ofExcept (frame.storeReference s r)
      fixReferences frame slots rest
    | none => fixReferences frame slots rest

def convertArgument (m : MethodAddress) (index : Nat) (declared : Tag) (value : Option Ref) :
    Act σ CallError Value := do
  let info ← lift (method m)
  let mismatch (expected actual : String) : CallError :=
    .argumentTypeMismatch info.name index expected actual
  if declared = .reference then
    match value, (info.paramClasses[index]?).join with
    | some r, some c =>
      if ← lift (isInstance r c) then
        return .reference value
      else
        throw (mismatch (← lift (className c)) (← lift (typeName r)))
    | _, _ => return .reference value
  else
    match value with
    | none => throw (mismatch declared.name "null")
    | some r =>
      match ← lift (vmStep (Vm.unbox r)) with
      | none => throw (mismatch declared.name (← lift (typeName r)))
      | some stored =>
        match stored.widenTo declared with
        | none => throw (mismatch declared.name stored.tag.name)
        | some v => return v

def convertEach (m : MethodAddress) : (index : Nat) → List Tag → List (Option Ref) →
    Act σ CallError (List Value)
  | index, t :: tags, a :: args => do
    let v ← convertArgument m index t a
    let vs ← convertEach m (index + 1) tags args
    return v :: vs
  | _, _, _ => return []

def convertArguments (m : MethodAddress) (shorty : Shorty) (args : List (Option Ref)) :
    Act σ CallError (List Value) :=
  if args.length ≠ shorty.params.length then
    throw (.argumentCountMismatch shorty.params.length args.length)
  else convertEach m 0 shorty.params args

def convertResult (m : MethodAddress) (declared : Tag) (result : Option Ref) :
    Act σ CallError Value := do
  match declared with
  | .void => return .void
  | .reference =>
    match result, (← lift (method m)).resultClass with
    | some r, some c =>
      if ← lift (isInstance r c) then
        return .reference result
      else
        throw (.returnTypeMismatch (← lift (className c)) (← lift (typeName r)))
    | _, _ => return .reference result
  | primitive =>
    match result with
    | none => throw (.nullResult primitive.name)
    | some r =>
      match ← lift (vmStep (Vm.unbox r)) with
      | none => throw (.returnTypeMismatch primitive.name (← lift (typeName r)))
      | some stored =>
        match stored.widenTo primitive with
        | none => throw (.returnTypeMismatch primitive.name stored.tag.name)
        | some v => return v

def wrapResult (v : Value) : Act σ RuntimeError (Option Ref) :=
  match v with
  | .void => return none
  | .reference r => return r
  | primitive => some <$> World.box primitive

end Boxing
end Detour
