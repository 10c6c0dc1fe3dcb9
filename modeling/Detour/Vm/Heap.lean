import Detour.Fault
import Detour.Method.Descriptor
import Detour.Value

/-! The objects of a managed runtime. Nothing is ever freed, so the live references always form a block
that ends at the next one to be issued. A collection moves every object, in order, to fresh references:
the block shifts by its own length. -/
namespace Detour

inductive Obj
  | instance (c : ClassId)
  | text (s : String)
  | boxed (v : Value)
  | array (elements : List (Option Ref))
  | reflected (m : MethodAddress)
  | throwable (message : String)
  deriving DecidableEq

def Obj.moveBy (distance : Nat) : Obj → Obj
  | array elements => array (elements.map (·.bind (Ref.moveBy? distance)))
  | o => o

structure Heap where
  base : Nat
  objects : Array Obj
  deriving DecidableEq

namespace Heap

def empty : Heap := ⟨0x1000, #[]⟩

def next (h : Heap) : Nat := h.base + h.objects.size

def get? (h : Heap) (r : Ref) : Option Obj :=
  if r.toNat < h.base then none else h.objects[r.toNat - h.base]?

def isLive (h : Heap) (r : Ref) : Bool := (h.get? r).isSome

def push? (h : Heap) (o : Obj) : Option (Ref × Heap) :=
  (Ref.ofNat? h.next).map fun r => (r, { h with objects := h.objects.push o })

def relocate? (h : Heap) : Option Heap :=
  if h.next + h.objects.size ≤ UInt32.size then
    some ⟨h.next, h.objects.map (Obj.moveBy h.objects.size)⟩
  else none

def set (h : Heap) (r : Ref) (o : Obj) : Heap :=
  { h with objects := h.objects.setIfInBounds (r.toNat - h.base) o }

theorem liveIff {h : Heap} {r : Ref} :
    h.isLive r = true ↔ h.base ≤ r.toNat ∧ r.toNat < h.next := by
  unfold isLive get? next
  split <;> simp <;> omega

end Heap
end Detour
