import Detour.Tag
import Detour.Reference
import Detour.Rounding

/-! Argument and return values, their raw words, and widening. Floats are bit patterns. A narrow value
is read from the low 32 bits of its word; sub-word integers are extended to 32 bits when written. -/
namespace Detour

inductive Value
  | void
  | boolean (b : Bool)
  | byte (v : Int8)
  | char (v : UInt16)
  | short (v : Int16)
  | int (v : Int32)
  | long (v : Int64)
  | float (bits : UInt32)
  | double (bits : UInt64)
  | reference (r : Option Ref)
  deriving DecidableEq

namespace Value

def tag : Value → Tag
  | void => .void
  | boolean _ => .boolean
  | byte _ => .byte
  | char _ => .char
  | short _ => .short
  | int _ => .int
  | long _ => .long
  | float _ => .float
  | double _ => .double
  | reference _ => .reference

def ofRaw (t : Tag) (raw : UInt64) : Value :=
  let low := raw.toUInt32
  match t with
  | .void => void
  | .boolean => boolean (low != 0)
  | .byte => byte low.toUInt8.toInt8
  | .char => char low.toUInt16
  | .short => short low.toUInt16.toInt16
  | .int => int low.toInt32
  | .long => long raw.toInt64
  | .float => float low
  | .double => double raw
  | .reference => reference (Ref.ofWord? low)

def toRaw : Value → UInt64
  | void => 0
  | boolean b => if b then 1 else 0
  | byte v => v.toInt32.toUInt32.toUInt64
  | char v => v.toUInt64
  | short v => v.toInt32.toUInt32.toUInt64
  | int v => v.toUInt32.toUInt64
  | long v => v.toUInt64
  | float bits => bits.toUInt64
  | double bits => bits
  | reference r => (refWord r).toUInt64

def integer? : Value → Option Int
  | byte v => some v.toInt
  | char v => some v.toNat
  | short v => some v.toInt
  | int v => some v.toInt
  | long v => some v.toInt
  | _ => none

def ofInteger (t : Tag) (i : Int) : Option Value :=
  match t with
  | .short => some (short (Int16.ofInt i))
  | .int => some (int (Int32.ofInt i))
  | .long => some (long (Int64.ofInt i))
  | .float => some (float (Rounding.ofInt Rounding.binary32 i).toUInt32)
  | .double => some (double (Rounding.ofInt Rounding.binary64 i).toUInt64)
  | _ => none

def widenTo (v : Value) (declared : Tag) : Option Value :=
  if !v.tag.widensTo declared then none
  else if v.tag = declared then some v
  else match v with
    | float bits => some (double (Rounding.extend bits.toNat).toUInt64)
    | _ => v.integer?.bind (ofInteger declared)

def equalPatterns (f : Rounding.Format) (a b : Nat) : Bool :=
  !Rounding.isNan f a && !Rounding.isNan f b &&
    (a == b || (Rounding.isZero f a && Rounding.isZero f b))

def equals (a b : Value) : Bool :=
  match a, b with
  | float a, float b => equalPatterns Rounding.binary32 a.toNat b.toNat
  | double a, double b => equalPatterns Rounding.binary64 a.toNat b.toNat
  | a, b => a = b

@[simp] theorem tagOfRaw (t : Tag) (raw : UInt64) : (ofRaw t raw).tag = t := by
  cases t <;> rfl

end Value
end Detour
