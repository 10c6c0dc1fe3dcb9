import Detour.Architecture
import Detour.Fault

/-! The calling convention of compiled code and the geometry of the frame that saves its argument registers.
From the stack pointer upwards a frame holds the callee's method word, the floating-point spill area and the
core spill area, whose topmost slot is the return address; the caller's stack arguments follow. An argument
register is saved at the place of its number among the saved ones, or in argument order where there is a fixed
base. A soft-float convention passes floating-point arguments like integers of their size, and its callers
leave room on the stack for the register arguments too. -/
namespace Detour

def maskRegisters (mask : UInt32) : List Nat :=
  (List.range 32).filter mask.toNat.testBit

structure Abi where
  pointerSize : Nat
  coreSize : Nat
  floatSize : Nat
  coreArgs : Nat
  floatArgs : Nat
  softFloat : Bool
  coreMask : UInt32
  floatMask : UInt32
  argRegisters : List Nat
  fixedCoreBase : Option Nat
  deriving DecidableEq, Repr

namespace Abi

def slotBytes : Nat := 4

def methodWordSize : Nat := 4

def roundUp (n unit : Nat) : Nat := (n + unit - 1) / unit * unit

def coreSpills (abi : Abi) : Nat := (maskRegisters abi.coreMask).length

def floatSpills (abi : Abi) : Nat := (maskRegisters abi.floatMask).length

def frameSize (abi : Abi) : Nat :=
  roundUp ((abi.coreSpills + abi.floatSpills + 1) * abi.pointerSize) 16

def coreBase (abi : Abi) : Nat :=
  abi.fixedCoreBase.getD (abi.frameSize - abi.coreSpills * abi.coreSize)

def floatBase (abi : Abi) : Nat :=
  abi.frameSize - abi.coreSpills * abi.coreSize - abi.floatSpills * abi.floatSize

def returnOffset (abi : Abi) : Nat := abi.frameSize - abi.pointerSize

def stackBase (abi : Abi) : Nat :=
  abi.frameSize + (if abi.softFloat then abi.coreArgs * abi.coreSize else 0) + methodWordSize

def spillRank (mask : UInt32) (register : Nat) : Nat :=
  (maskRegisters mask).countP (· < register)

def coreArgOffset (abi : Abi) (index : Nat) : Except Fault Nat :=
  match abi.argRegisters[index]? with
  | none => .error (.registerIndex abi.argRegisters.length index)
  | some register =>
    let rank := match abi.fixedCoreBase with
      | some _ => index
      | none => spillRank abi.coreMask register
    .ok (abi.coreBase + rank * abi.coreSize)

def floatArgOffset (abi : Abi) (index : Nat) : Nat :=
  abi.floatBase + index * abi.floatSize

def stackArgOffset (abi : Abi) (index : Nat) : Nat :=
  abi.stackBase + index * slotBytes

end Abi

namespace Architecture

def abi : Architecture → Abi
  | arm => ⟨4, 4, 4, 3, 0, true, 0x4DEE, 0, [1, 2, 3], none⟩
  | arm64 => ⟨8, 8, 8, 7, 8, false, 0x7FF000FE, 0xFF, [1, 2, 3, 4, 5, 6, 7], none⟩
  | x86 => ⟨4, 4, 4, 3, 0, true, 0x1EE, 0, [1, 2, 3], none⟩
  | x86_64 => ⟨8, 8, 8, 5, 8, false, 0x1F36E, 0xF0FF, [6, 2, 1, 8, 9], none⟩
  | mips => ⟨4, 4, 4, 3, 0, true, 0xD0FC00E0, 0, [5, 6, 7], some 4⟩

end Architecture
end Detour
