import Detour.Reference

/-! Handles: ids that stand for a reference and follow its object when it moves. A handle is valid from
its creation to its release. -/
namespace Detour

inductive HandleKind
  | localHandle | globalHandle
  deriving DecidableEq, Repr

structure Handle where
  id : Nat
  deriving DecidableEq, Repr

structure HandleEntry where
  handle : Handle
  kind : HandleKind
  target : Option Ref
  deriving DecidableEq

structure HandleTable where
  next : Nat
  live : List HandleEntry
  deriving DecidableEq

namespace HandleTable

def empty : HandleTable := ⟨1, []⟩

def find? (t : HandleTable) (h : Handle) : Option HandleEntry :=
  t.live.find? (·.handle = h)

def isLive (t : HandleTable) (h : Handle) : Bool := (t.find? h).isSome

def create (t : HandleTable) (kind : HandleKind) (target : Option Ref) : Handle × HandleTable :=
  (⟨t.next⟩, ⟨t.next + 1, ⟨⟨t.next⟩, kind, target⟩ :: t.live⟩)

def release (t : HandleTable) (h : Handle) : HandleTable :=
  { t with live := t.live.filter (·.handle ≠ h) }

def ofKind (t : HandleTable) (kind : HandleKind) : List Handle :=
  (t.live.filter (·.kind = kind)).map (·.handle)

def moveBy (t : HandleTable) (distance : Nat) : HandleTable :=
  { t with live := t.live.map fun e => { e with target := e.target.bind (Ref.moveBy? distance) } }

end HandleTable
end Detour
