import Detour.Reference
import Detour.Text.Characters

/-! Breaches of contract. A fault is no error of the interception layer: it aborts the operation, is
caught by nobody, and leaves the state as it was before. -/
namespace Detour

inductive Fault
  | registerIndex (count index : Nat)
  | outsideFrame (offset : Nat)
  | badSignature (signature : String)
  | truncatedSignature (signature : String)
  | wideResult (kind : Char)
  | staleReference (r : Ref)
  | notAnArray (r : Ref)
  | elementIndex (r : Ref) (index : Nat)
  | releasedHandle (handle : Nat)
  | referencesExhausted
  | unknownMethod
  | unknownClass
  | argumentCount (expected found : Nat)
  | boxingNonPrimitive
  | badShorty (shorty : String)
  | nestedTooDeep
  | sizeOverflow
  deriving DecidableEq

def Fault.message : Fault → String
  | registerIndex count index =>
    "index out of bounds: the len is " ++ toString count ++ " but the index is " ++ toString index
  | outsideFrame offset => "access outside the frame at offset " ++ toString offset
  | badSignature s => "bad signature " ++ s
  | truncatedSignature s => "truncated signature " ++ s
  | wideResult c =>
    "start byte index 1 is not a char boundary; it is inside " ++ Text.quotedChar c ++
      " (bytes 0.." ++ toString c.utf8Size ++ " of string)"
  | staleReference r => "stale or unknown reference " ++ r.label
  | notAnArray r => r.label ++ " is not an array"
  | elementIndex r i => "no element " ++ toString i ++ " in " ++ r.label
  | releasedHandle h => "released handle " ++ toString h
  | referencesExhausted => "no reference word left"
  | unknownMethod => "descriptor of no method"
  | unknownClass => "class id of no class"
  | argumentCount expected found =>
    toString expected ++ " arguments expected, " ++ toString found ++ " found"
  | boxingNonPrimitive => "boxing a non-primitive"
  | badShorty s => "invalid shorty " ++ s
  | nestedTooDeep => "calls nested too deep"
  | sizeOverflow => "attempt to add with overflow"

end Detour
