import Detour.Frame

/-! Faults of reading and writing arguments: a register that the calling convention lacks, or a place
outside the buffer. -/
namespace Detour

def Fault.OfFrame : Fault → Prop
  | .registerIndex .. | .outsideFrame _ => True
  | _ => False

namespace Frame

variable {α : Type}

theorem offsetFault {abi : Abi} {l : Location} {f : Fault} (failed : offsetOf abi l = .error f) : f.OfFrame := by
  cases l with
  | core i =>
    simp only [offsetOf, Abi.coreArgOffset] at failed
    split at failed <;> cases failed
    trivial
  | _ => cases failed

theorem loadFault {frame : Frame} {offset width : Nat} {f : Fault} (failed : frame.load offset width = .error f) :
    f.OfFrame := by
  unfold load at failed
  split at failed <;> cases failed
  trivial

theorem storeFault {frame : Frame} {offset width word : Nat} {f : Fault}
    (failed : frame.store offset width word = .error f) : f.OfFrame := by
  unfold store at failed
  split at failed <;> cases failed
  trivial

theorem bindFault {a : Except Fault α} {β : Type} {rest : α → Except Fault β} {f : Fault}
    (failed : (a >>= rest) = .error f) (first : ∀ f, a = .error f → f.OfFrame)
    (later : ∀ b f, rest b = .error f → f.OfFrame) : f.OfFrame := by
  cases a with
  | error e =>
    cases failed
    exact first _ rfl
  | ok b => exact later b f failed

theorem loadSlotFault {frame : Frame} {s : Slot} {f : Fault} (failed : frame.loadSlot s = .error f) : f.OfFrame := by
  refine bindFault failed (fun _ => offsetFault) fun offset f failed => ?_
  split at failed
  next =>
    refine bindFault failed (fun _ => loadFault) fun low f failed => ?_
    refine bindFault failed (fun _ => offsetFault) fun high f failed => ?_
    exact bindFault failed (fun _ => loadFault) fun _ _ never => nomatch never
  next => exact bindFault failed (fun _ => loadFault) fun _ _ never => nomatch never

theorem storeSlotFault {frame : Frame} {s : Slot} {raw : UInt64} {f : Fault}
    (failed : frame.storeSlot s raw = .error f) : f.OfFrame := by
  refine bindFault failed (fun _ => offsetFault) fun offset f failed => ?_
  split at failed
  next =>
    refine bindFault failed (fun _ => storeFault) fun half f failed => ?_
    exact bindFault failed (fun _ => offsetFault) fun high f failed => storeFault failed
  next => exact storeFault failed

theorem storeValuesFault {slots : List Slot} {values : List Value} {frame : Frame} {f : Fault}
    (failed : frame.storeValues slots values = .error f) : f.OfFrame := by
  induction slots generalizing values frame f with
  | nil => cases failed
  | cons s slots ih =>
    cases values with
    | nil => cases failed
    | cons v values => exact bindFault failed (fun _ => storeSlotFault) fun _ _ failed => ih failed

theorem referenceFault {frame : Frame} {s : Slot} {f : Fault} (failed : frame.referenceAt s = .error f) :
    f.OfFrame :=
  bindFault failed (fun _ => loadSlotFault) fun _ _ never => nomatch never

theorem valueFault {frame : Frame} {s : Slot} {f : Fault} (failed : frame.valueAt s = .error f) : f.OfFrame :=
  bindFault failed (fun _ => loadSlotFault) fun _ _ never => nomatch never

end Frame
end Detour
