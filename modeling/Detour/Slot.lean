import Detour.Abi
import Detour.Shorty

/-! Where each argument of a call arrives. Three cursors, over core registers, floating-point registers and
stack slots, walk the signature; `slots` gives one slot per argument, the receiver first. A split argument has
its low half at its location and its high half in the first stack slot. A hard-float caller reserves stack
words for the arguments in registers as well. -/
namespace Detour

inductive Location
  | core (index : Nat)
  | float (index : Nat)
  | stack (index : Nat)
  deriving DecidableEq, Repr

structure Slot where
  tag : Tag
  location : Location
  split : Bool
  deriving DecidableEq, Repr

def Slot.highLocation (s : Slot) : Option Location :=
  if s.split then some (.stack 0) else none

structure Cursor where
  core : Nat
  float : Nat
  stack : Nat
  deriving DecidableEq, Repr

namespace Cursor

def start : Cursor := ⟨0, 0, 0⟩

def coreLocation (abi : Abi) (c : Cursor) : Location :=
  if c.core < abi.coreArgs then .core c.core else .stack c.stack

def floatLocation (abi : Abi) (c : Cursor) : Location :=
  if c.float < abi.floatArgs then .float c.float else .stack c.stack

def coreStackWords (abi : Abi) (c : Cursor) (words : Nat) : Nat :=
  if abi.softFloat && decide (c.core < abi.coreArgs) then 0 else words

def oneWord (abi : Abi) (c : Cursor) (t : Tag) : Slot × Cursor :=
  (⟨t, c.coreLocation abi, false⟩,
    ⟨if c.core < abi.coreArgs then c.core + 1 else c.core, c.float,
      c.stack + c.coreStackWords abi 1⟩)

/-- An argument of two words in the core sequence. With four-byte registers it takes two of them; in
the last register it is split, and a soft-float caller then uses a stack slot for the high half. -/
def twoWords (abi : Abi) (c : Cursor) (t : Tag) : Slot × Cursor :=
  let last := abi.coreSize == 4 && c.core + 1 == abi.coreArgs
  let second := decide (abi.coreSize = 4 ∧ c.core + 1 < abi.coreArgs)
  let overflow := last && abi.softFloat
  (⟨t, c.coreLocation abi, last⟩,
    ⟨if c.core < abi.coreArgs then c.core + 1 + second.toNat else c.core, c.float,
      c.stack + c.coreStackWords abi 2 + overflow.toNat⟩)

def floatArgument (abi : Abi) (c : Cursor) : Slot × Cursor :=
  (⟨.float, c.floatLocation abi, false⟩,
    ⟨c.core, if c.float < abi.floatArgs then c.float + 1 else c.float, c.stack + 1⟩)

def doubleArgument (abi : Abi) (c : Cursor) : Slot × Cursor :=
  let last := abi.floatSize == 4 && c.float + 1 == abi.floatArgs
  let second := decide (abi.floatSize = 4 ∧ c.float + 1 < abi.floatArgs)
  (⟨.double, c.floatLocation abi, last⟩,
    ⟨c.core, if c.float < abi.floatArgs then c.float + 1 + second.toNat else c.float, c.stack + 2⟩)

def place (abi : Abi) (c : Cursor) (t : Tag) : Slot × Cursor :=
  match t with
  | .float => if abi.softFloat then c.oneWord abi .float else c.floatArgument abi
  | .double => if abi.softFloat then c.twoWords abi .double else c.doubleArgument abi
  | .long => c.twoWords abi .long
  | t => c.oneWord abi t

def placeAll (abi : Abi) (c : Cursor) : List Tag → List Slot
  | [] => []
  | t :: ts => (c.place abi t).1 :: placeAll abi (c.place abi t).2 ts

end Cursor

def argumentTags (shorty : Shorty) (isStatic : Bool) : List Tag :=
  if isStatic then shorty.params else .reference :: shorty.params

def slots (abi : Abi) (shorty : Shorty) (isStatic : Bool) : List Slot :=
  Cursor.start.placeAll abi (argumentTags shorty isStatic)

theorem placeAllTags (abi : Abi) (c : Cursor) (ts : List Tag) :
    (c.placeAll abi ts).map Slot.tag = ts := by
  induction ts generalizing c with
  | nil => rfl
  | cons t ts ih =>
    simp only [Cursor.placeAll, List.map_cons, ih, List.cons.injEq, and_true]
    cases t <;> simp only [Cursor.place, Cursor.oneWord, Cursor.twoWords, Cursor.floatArgument,
      Cursor.doubleArgument] <;> split <;> rfl

@[simp] theorem slotsTags (abi : Abi) (shorty : Shorty) (isStatic : Bool) :
    (slots abi shorty isStatic).map Slot.tag = argumentTags shorty isStatic :=
  placeAllTags abi _ _

end Detour
