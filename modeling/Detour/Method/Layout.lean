import Detour.Error
import Detour.Fault

/-! The layout of a method descriptor as a runtime reports it, checked against the one that the accessors are
compiled for. The version is looked at first, then the offsets in the order of `fields`, then the size. -/
namespace Detour

def addSizes (a b : UInt64) : Except Fault UInt64 :=
  if a.toNat + b.toNat < UInt64.size then .ok (a + b) else .error .sizeOverflow

structure Layout where
  version : UInt32
  descriptorSize : UInt64
  accessFlags : UInt64
  registersSize : UInt64
  insSize : UInt64
  outsSize : UInt64
  nativeData : UInt64
  entryPoint : UInt64
  deriving DecidableEq, Repr

namespace Layout

def alignment : Nat := 8

def compiled : Layout := ⟨1, 80, 4, 16, 18, 20, 64, 72⟩

def withTrailingBytes (l : Layout) (extra : UInt64) : Except Fault Layout := do
  return { l with descriptorSize := ← addSizes l.descriptorSize extra }

def replace (l : Layout) (field : String) (w : UInt64) : Except Fault Layout :=
  match field with
  | "version" => .ok { l with version := w.toUInt32 }
  | "descriptor_size" => .ok { l with descriptorSize := w }
  | "access_flags" => .ok { l with accessFlags := w }
  | "registers_size" => .ok { l with registersSize := w }
  | "ins_size" => .ok { l with insSize := w }
  | "outs_size" => .ok { l with outsSize := w }
  | "native_data" => .ok { l with nativeData := w }
  | "entry_point" => .ok { l with entryPoint := w }
  | "trailing" => l.withTrailingBytes w
  | _ => .ok l

def fields (l : Layout) : List (String × UInt64) :=
  [("access_flags", l.accessFlags), ("registers_size", l.registersSize), ("ins_size", l.insSize),
    ("outs_size", l.outsSize), ("native_data", l.nativeData), ("entry_point", l.entryPoint)]

def fieldError? (l : Layout) : Option LayoutError :=
  (compiled.fields.zip l.fields).findSome? fun (expected, found) =>
    if expected.2 = found.2 then none
    else some (.fieldOffset expected.1 expected.2.toNat found.2.toNat)

def validate (l : Layout) : Except LayoutError Unit :=
  if l.version ≠ compiled.version then
    .error (.version compiled.version.toNat l.version.toNat)
  else match l.fieldError? with
    | some e => .error e
    | none =>
      if l.descriptorSize < compiled.descriptorSize then
        .error (.tooSmall compiled.descriptorSize.toNat l.descriptorSize.toNat)
      else .ok ()

def copySize (l : Layout) : UInt64 := max l.descriptorSize compiled.descriptorSize

end Layout
end Detour
