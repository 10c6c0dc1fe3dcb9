import Detour.Tag

/-! A shorty: the return kind of a method followed by the kinds of its declared parameters. The
receiver of an instance method is no part of it. -/
namespace Detour

structure Shorty where
  result : Tag
  params : List Tag
  deriving DecidableEq, Repr

namespace Shorty

def param? (c : Char) : Option Tag :=
  (Tag.ofChar? c).filter (· != .void)

def params? : List Char → Option (List Tag)
  | [] => some []
  | c :: cs => do
    let t ← param? c
    let ts ← params? cs
    some (t :: ts)

def ofChars? : List Char → Option Shorty
  | [] => none
  | c :: cs => do
    let result ← Tag.ofChar? c
    let params ← params? cs
    some ⟨result, params⟩

def parse? (s : String) : Option Shorty := ofChars? s.toList

def chars (s : Shorty) : List Char :=
  s.result.toChar :: s.params.map Tag.toChar

def display (s : Shorty) : String := String.ofList s.chars

end Shorty
end Detour
