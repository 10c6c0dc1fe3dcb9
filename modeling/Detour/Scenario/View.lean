import Detour.Hook.Record
import Detour.Scenario.Syntax

/-! What the answers of a scenario show: objects with their class and content, errors with the object
that they carry, descriptors and records under the names that the scenario gave. Views are taken when they
are shown; they do not follow later changes. -/
namespace Detour.Scenario

inductive Content
  | none
  | text (s : String)
  | message (s : String)
  | method (name : String)
  | boxed (v : Value)
  | elements (es : List (Option Ref))
  deriving DecidableEq

inductive ObjectView
  | null
  | stale (r : Ref)
  | live (r : Ref) (className : String) (content : Content)
  deriving DecidableEq

inductive ValueView
  | primitive (v : Value)
  | reference (object : ObjectView)
  deriving DecidableEq

inductive ErrorView
  | call (e : CallError) (object : Option ObjectView)
  | install (e : InstallError)
  deriving DecidableEq

inductive NativeDataView
  | word (w : UInt64)
  | record (number : Nat)
  | unnumbered (record : Nat)
  deriving DecidableEq, Repr

structure DescriptorView where
  descriptor : Descriptor
  className : Option String
  nativeData : NativeDataView
  deriving DecidableEq

structure RecordView where
  number : Nat
  method : String
  shorty : Shorty
  isStatic : Bool
  slots : List Slot
  reflected : ObjectView
  payload : ObjectView
  snapshot : Snapshot
  copy : DescriptorView
  deriving DecidableEq

structure HandlerView where
  method : String
  methodId : Nat
  receiver : ObjectView
  array : ObjectView
  arguments : List ObjectView
  payload : ObjectView
  reflected : ObjectView
  isStatic : Bool
  shorty : String
  deriving DecidableEq

structure CallbackView where
  method : String
  receiver : ObjectView
  arguments : List ObjectView
  result : ObjectView
  throwable : Option ErrorView
  outcome : Except ErrorView ObjectView

inductive Note
  | content (text : String)
  | before (hook : String)
  | after (hook : String)
  | object (o : ObjectView)
  | value (v : ValueView)
  | handles (locals globals : Nat)
  | nothing
  | body (receiver : ObjectView) (args : List ValueView)
  | handler (v : HandlerView)
  | callback (v : CallbackView)
  | caught (e : ErrorView)
  | flag (b : Bool)
  | refused (what : String)
  | installed (result : Except ErrorView Nat)
  | nested (e : Option ErrorView)

end Detour.Scenario
