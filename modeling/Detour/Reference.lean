import Detour.Text.Characters

/-! References to managed objects and to classes are non-zero 32-bit words; the zero word is the null
reference, and is no `Ref` at all. -/
namespace Detour

structure Ref where
  word : UInt32
  nonzero : word ≠ 0
  deriving DecidableEq

namespace Ref

def ofWord? (w : UInt32) : Option Ref :=
  if h : w ≠ 0 then some ⟨w, h⟩ else none

def toNat (r : Ref) : Nat := r.word.toNat

def ofNat? (n : Nat) : Option Ref :=
  if n < UInt32.size then ofWord? n.toUInt32 else none

def moveBy? (distance : Nat) (r : Ref) : Option Ref := ofNat? (r.toNat + distance)

def label (r : Ref) : String := "ObjectRef(" ++ hex r.toNat ++ ")"

@[simp] theorem ofWordWord (r : Ref) : ofWord? r.word = some r := by
  simp [ofWord?, r.nonzero]

theorem toNatPos (r : Ref) : 0 < r.toNat := by
  have h : r.word.toNat ≠ 0 := fun h => r.nonzero (UInt32.toNat_inj.1 h)
  exact Nat.pos_of_ne_zero h

theorem toNatInj {a b : Ref} (h : a.toNat = b.toNat) : a = b := by
  cases a; cases b
  simpa [toNat, UInt32.toNat_inj] using h

theorem toNatOfNat {n r} (h : ofNat? n = some r) : r.toNat = n := by
  unfold ofNat? ofWord? at h
  split at h <;> try contradiction
  rename_i small
  split at h <;> try contradiction
  cases h
  simpa [toNat] using Nat.mod_eq_of_lt small

end Ref

def refWord : Option Ref → UInt32
  | none => 0
  | some r => r.word

structure ClassId where
  word : UInt32
  nonzero : word ≠ 0
  deriving DecidableEq

namespace ClassId

def ofWord? (w : UInt32) : Option ClassId :=
  if h : w ≠ 0 then some ⟨w, h⟩ else none

def index (c : ClassId) : Nat := c.word.toNat - 1

def ofIndex? (i : Nat) : Option ClassId :=
  if i + 1 < UInt32.size then ofWord? (i + 1).toUInt32 else none

def label (c : ClassId) : String := "ClassRef(" ++ hex c.word.toNat ++ ")"

end ClassId

def classWord : Option ClassId → UInt32
  | none => 0
  | some c => c.word

end Detour
