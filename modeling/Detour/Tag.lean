/-! The kinds of a parameter or a return value, the character that stands for each, and the order in
which primitive values widen. -/
namespace Detour

inductive Tag
  | reference | boolean | byte | char | short | int | long | float | double | void
  deriving DecidableEq, Repr

namespace Tag

def ofChar? : Char → Option Tag
  | 'L' | '[' => some reference
  | 'Z' => some boolean
  | 'B' => some byte
  | 'C' => some char
  | 'S' => some short
  | 'I' => some int
  | 'J' => some long
  | 'F' => some float
  | 'D' => some double
  | 'V' => some void
  | _ => none

def toChar : Tag → Char
  | reference => 'L'
  | boolean => 'Z'
  | byte => 'B'
  | char => 'C'
  | short => 'S'
  | int => 'I'
  | long => 'J'
  | float => 'F'
  | double => 'D'
  | void => 'V'

def name : Tag → String
  | reference => "reference"
  | boolean => "boolean"
  | byte => "byte"
  | char => "char"
  | short => "short"
  | int => "int"
  | long => "long"
  | float => "float"
  | double => "double"
  | void => "void"

def isPrimitive : Tag → Bool
  | reference | void => false
  | _ => true

def isWide : Tag → Bool
  | long | double => true
  | _ => false

def wider : Tag → List Tag
  | byte => [short, int, long, float, double]
  | char | short => [int, long, float, double]
  | int => [long, float, double]
  | long => [float, double]
  | float => [double]
  | _ => []

def widensTo (stored declared : Tag) : Bool :=
  if stored = declared then stored.isPrimitive else stored.wider.contains declared

theorem primitiveOther {t : Tag} (kind : t.isPrimitive = true) : t ≠ .reference := by
  rintro rfl
  contradiction

@[simp] theorem ofCharToChar (t : Tag) : ofChar? t.toChar = some t := by
  cases t <;> rfl

end Tag
end Detour
