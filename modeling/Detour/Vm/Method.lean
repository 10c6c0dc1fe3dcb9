import Detour.Method.Descriptor
import Detour.Method.Layout
import Detour.Vm.Class
import Detour.Vm.Signature

/-! The methods of a managed runtime: their names, the classes of their parameters and results, and their
descriptors. Methods are numbered from one, and a descriptor's code item is its method's number. Arrays have
one class, and an unknown name means the root class. -/
namespace Detour

structure Method where
  declaredIn : ClassId
  name : String
  signature : String
  paramClasses : List (Option ClassId)
  resultClass : Option ClassId
  descriptor : Descriptor
  calls : Nat
  deriving DecidableEq

namespace Method

def vendorByte : UInt8 := 0xA5

def entryAddress (number : Nat) : UInt64 := (0x71000000 + number * 0x40).toUInt64

def nativeFunction (number : Nat) : UInt64 := (0x72000000 + number).toUInt64

def dotted (name : String) : String :=
  String.ofList (name.toList.map fun c => if c = '/' then '.' else c)

def classOf? (t : ClassTable) : TypeTerm → Option ClassId
  | .named n => some ((t.named? (dotted n)).getD .object)
  | .array => some .objectArray
  | .letter _ => none

def parameterWords (text : List UInt8) : Nat :=
  (text.drop 1).foldl (fun n b => n + if b = 'J'.toUInt8 ∨ b = 'D'.toUInt8 then 2 else 1) 0

def descriptorOf (layout : Layout) (number : Nat) (declaredIn : ClassId) (flags : UInt32)
    (text : List UInt8) : Descriptor :=
  let isStatic := flags &&& Descriptor.staticFlag != 0
  let ins := parameterWords text + if isStatic then 0 else 1
  { declaringClass := some declaredIn
    accessFlags := flags
    methodIndex := number.toUInt32
    methodId := (1000 + number).toUInt32
    registersSize := (ins + 4).toUInt16
    insSize := ins.toUInt16
    outsSize := 0
    frameSize := 0
    coreSpillMask := 0
    floatSpillMask := 0
    shortyText := some text
    shortyLength := text.length.toUInt64
    codeItem := number.toUInt64
    nativeData := .word (if flags &&& Descriptor.nativeFlag != 0 then nativeFunction number else 0)
    entryPoint := .code (entryAddress number)
    trailing := List.replicate
      (layout.copySize.toNat - Layout.compiled.descriptorSize.toNat) vendorByte }

def define (t : ClassTable) (layout : Layout) (number : Nat) (declaredIn : ClassId)
    (name signature : String) (flags : UInt32) : Except Fault Method := do
  let types ← Signature.parse signature
  return {
    declaredIn, name, signature
    paramClasses := types.params.map (classOf? t)
    resultClass := classOf? t types.result
    descriptor := descriptorOf layout number declaredIn flags
      types.shortyText.toUTF8.data.toList
    calls := 0 }

theorem descriptorDefined {t : ClassTable} {layout : Layout} {number : Nat} {c : ClassId}
    {name signature : String} {flags : UInt32} {info : Method}
    (made : define t layout number c name signature flags = .ok info) :
    ∃ text, info.descriptor = descriptorOf layout number c flags text := by
  unfold define at made
  cases parsed : Signature.parse signature with
  | error f => simp [parsed, bind, Except.bind] at made
  | ok types =>
    simp only [parsed, bind, Except.bind, pure, Except.pure, Except.ok.injEq] at made
    exact ⟨_, by rw [← made]⟩

end Method
end Detour
