import Detour.Bytes
import Detour.Slot
import Detour.Value

/-! A hooked call's frame as a little-endian byte buffer addressed from the stack pointer. Reading and writing
an argument go through its slot; nothing else of the frame is touched. A buffer is a whole number of 64-bit
words. -/
namespace Detour

structure Frame where
  abi : Abi
  bytes : Array UInt8
  deriving DecidableEq

namespace Frame

def stackWords (s : Slot) : Nat :=
  match s.location with
  | .stack i => i + if s.tag.isWide then 2 else 1
  | _ => if s.split then 1 else 0

/-- Bytes from the stack pointer to the end of the last stack slot that the arguments use, or to the end of
the caller's method word if that is further. -/
def sizeFor (abi : Abi) (slots : List Slot) : Nat :=
  max (abi.stackBase + (slots.map stackWords).foldl max 0 * Abi.slotBytes)
    (abi.frameSize + Abi.methodWordSize)

def filled (abi : Abi) (size : Nat) (fill : UInt8) : Frame :=
  ⟨abi, Array.replicate (Abi.roundUp size 8) fill⟩

def offsetOf (abi : Abi) : Location → Except Fault Nat
  | .core i => abi.coreArgOffset i
  | .float i => .ok (abi.floatArgOffset i)
  | .stack i => .ok (abi.stackArgOffset i)

def load (f : Frame) (offset width : Nat) : Except Fault Nat :=
  match Bytes.load? f.bytes offset width with
  | some n => .ok n
  | none => .error (.outsideFrame offset)

def store (f : Frame) (offset width word : Nat) : Except Fault Frame :=
  match Bytes.store? f.bytes offset width word with
  | some bytes => .ok { f with bytes }
  | none => .error (.outsideFrame offset)

def width (s : Slot) : Nat := if s.tag.isWide then 8 else 4

def loadSlot (f : Frame) (s : Slot) : Except Fault UInt64 := do
  let offset ← offsetOf f.abi s.location
  match s.highLocation with
  | some high =>
    let low ← f.load offset 4
    let high ← f.load (← offsetOf f.abi high) 4
    return (low + UInt32.size * high).toUInt64
  | none => return (← f.load offset (width s)).toUInt64

def storeSlot (f : Frame) (s : Slot) (raw : UInt64) : Except Fault Frame := do
  let offset ← offsetOf f.abi s.location
  match s.highLocation with
  | some high =>
    let f ← f.store offset 4 (raw.toNat % UInt32.size)
    f.store (← offsetOf f.abi high) 4 (raw.toNat / UInt32.size)
  | none => f.store offset (width s) raw.toNat

def valueAt (f : Frame) (s : Slot) : Except Fault Value := do
  return Value.ofRaw s.tag (← f.loadSlot s)

def referenceAt (f : Frame) (s : Slot) : Except Fault (Option Ref) := do
  return Ref.ofWord? (← f.loadSlot s).toUInt32

def storeReference (f : Frame) (s : Slot) (r : Option Ref) : Except Fault Frame :=
  f.storeSlot s (refWord r).toUInt64

def storeValues (f : Frame) : List Slot → List Value → Except Fault Frame
  | s :: slots, v :: values => do
    let f ← f.storeSlot s v.toRaw
    f.storeValues slots values
  | _, _ => .ok f

def loadSlots (f : Frame) (slots : List Slot) : Except Fault (List UInt64) :=
  slots.mapM f.loadSlot

def methodWord (f : Frame) : Except Fault Nat := f.load 0 4

def returnAddress (f : Frame) : Except Fault Nat :=
  f.load f.abi.returnOffset (if f.abi.pointerSize = 8 then 8 else 4)

def callerWord (f : Frame) : Except Fault Nat := f.load f.abi.frameSize 4

def holds (f : Frame) (s : Slot) : Except Fault Bool := do
  return (← offsetOf f.abi s.location) + width s ≤ f.bytes.size

def differences (f : Frame) (fill : UInt8) : List (Nat × Nat) :=
  let plain := List.replicate 4 fill
  (List.range (f.bytes.size / 4)).filterMap fun i =>
    if (f.bytes.extract (4 * i) (4 * i + 4)).toList = plain then none
    else (Bytes.load? f.bytes (4 * i) 4).map fun word => (4 * i, word)

end Frame
end Detour
