import Detour.Error
import Detour.Shorty
import Detour.Text.Utf8

/-! A method descriptor: the runtime's record of one method. The native-data word and the entry point are what
hooking changes, so both say whether they hold a plain word or the interception layer's own address. A null
pointer to the shorty is no text, and text that is ill formed is reported with replacement characters. -/
namespace Detour

inductive MethodAddress
  | live (index : Nat)
  | copy (record : Nat)
  deriving DecidableEq, Repr

inductive NativeData
  | word (w : UInt64)
  | record (id : Nat)
  deriving DecidableEq, Repr

inductive Entry
  | code (address : UInt64)
  | trampoline
  deriving DecidableEq, Repr

def Entry.label : Entry → String
  | .code address => hex address.toNat
  | .trampoline => "trampoline"

structure Descriptor where
  declaringClass : Option ClassId
  accessFlags : UInt32
  methodIndex : UInt32
  methodId : UInt32
  registersSize : UInt16
  insSize : UInt16
  outsSize : UInt16
  frameSize : UInt32
  coreSpillMask : UInt32
  floatSpillMask : UInt32
  shortyText : Option (List UInt8)
  shortyLength : UInt64
  codeItem : UInt64
  nativeData : NativeData
  entryPoint : Entry
  trailing : List UInt8
  deriving DecidableEq

namespace Descriptor

def staticFlag : UInt32 := 0x8

def nativeFlag : UInt32 := 0x100

def abstractFlag : UInt32 := 0x400

def isStatic (d : Descriptor) : Bool := d.accessFlags &&& staticFlag != 0

def isNative (d : Descriptor) : Bool := d.accessFlags &&& nativeFlag != 0

def isAbstract (d : Descriptor) : Bool := d.accessFlags &&& abstractFlag != 0

def isHooked (d : Descriptor) : Bool := d.entryPoint = .trampoline

def shortyContent (d : Descriptor) : List UInt8 := d.shortyText.getD []

def shorty (d : Descriptor) : Except InstallError Shorty :=
  match Text.Utf8.decode? d.shortyContent with
  | none => .error (.invalidShorty (Text.Utf8.decodeLossy d.shortyContent))
  | some s => match Shorty.parse? s with
    | none => .error (.invalidShorty s)
    | some shorty => .ok shorty

def record? (d : Descriptor) : Option Nat :=
  match d.entryPoint, d.nativeData with
  | .trampoline, .record id => some id
  | _, _ => none

def quoted (s : String) : String :=
  let escape (c : Char) : List Char := if c = '"' ∨ c = '\\' then ['\\', c] else [c]
  String.ofList ('"' :: s.toList.flatMap escape ++ ['"'])

def summary (d : Descriptor) : String :=
  "MethodDescriptor \x7b declaring_class: " ++ toString (classWord d.declaringClass).toNat ++
    ", access_flags: " ++ hex d.accessFlags.toNat ++
    ", method_id: " ++ toString d.methodId.toNat ++
    ", shorty: " ++ quoted (Text.Utf8.decodeLossy d.shortyContent) ++
    ", entry_point: " ++ d.entryPoint.label ++ " \x7d"

end Descriptor
end Detour
