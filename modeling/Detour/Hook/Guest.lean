import Detour.Hook.Boxing

/-! The code that the interception layer calls but does not know: method bodies, handlers of hooked calls,
and callbacks around them. Such code may do anything to the world, and may call methods through their
entry points by the invoker that it is handed. -/
namespace Detour

abbrev Invoker (σ : Type) :=
  MethodAddress → Option Ref → List Value → Act σ RuntimeError Value

structure HookedCall where
  record : Nat
  boxed : BoxedFrame
  deriving DecidableEq, Repr

structure SharedCall where
  method : MethodAddress
  receiver : Handle
  args : List Handle
  result : Handle
  failure : Option CallError
  settled : Bool
  deriving DecidableEq

abbrev CallbackCode (σ : Type) := SharedCall → Machine σ (Except CallError Unit × SharedCall)

structure Guest (σ : Type) where
  body : Nat → Invoker σ → Option Ref → List Value → Act σ RuntimeError Value
  handler : Nat → Invoker σ → HookedCall → Act σ CallError (Option Ref)
  before : Nat → Invoker σ → CallbackCode σ
  after : Nat → Invoker σ → CallbackCode σ

end Detour
