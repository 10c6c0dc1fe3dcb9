import Detour.Method.Descriptor

/-! The callbacks registered for each method, in descending priority; among equals the earlier
registration stands first. A callback is in a method's list at most once. -/
namespace Detour

structure Callback where
  id : Nat
  priority : Int
  deriving DecidableEq, Repr

structure Chain where
  lists : List (MethodAddress × List Callback)
  deriving DecidableEq, Repr

namespace Chain

def empty : Chain := ⟨[]⟩

def callbacks (c : Chain) (m : MethodAddress) : List Callback := (c.lists.lookup m).getD []

def insert (h : Callback) : List Callback → List Callback
  | [] => [h]
  | g :: gs => if g.priority < h.priority then h :: g :: gs else g :: insert h gs

def replace (c : Chain) (m : MethodAddress) (list : List Callback) : Chain :=
  let others := c.lists.filter (·.1 ≠ m)
  ⟨if list.isEmpty then others else (m, list) :: others⟩

def register (c : Chain) (m : MethodAddress) (h : Callback) : Bool × Chain :=
  if (c.callbacks m).any (·.id = h.id) then (false, c)
  else (true, c.replace m (insert h (c.callbacks m)))

def unregister (c : Chain) (m : MethodAddress) (h : Callback) : Bool × Chain :=
  if (c.callbacks m).any (·.id = h.id) then
    (true, c.replace m ((c.callbacks m).filter (·.id ≠ h.id)))
  else (false, c)

end Chain
end Detour
