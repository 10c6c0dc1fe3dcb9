import Detour.Scenario.Stage

/-! The commands of a scenario and what they answer. -/
namespace Detour.Scenario

inductive Superclass
  | root
  | nothing
  | named (name : String)
  deriving DecidableEq, Repr

inductive HandlerSource
  | chain (name : String)
  | script (s : HandlerScript)

inductive InstallTarget
  | method (name : String)
  | lookup (className name signature : String)
  deriving DecidableEq, Repr

structure Installation where
  target : InstallTarget
  payload : ObjectTerm

structure CallTerms (ε : Type) where
  method : String
  receiver : ObjectTerm
  args : List ε

inductive Command
  | defineClass (name : String) (superclass : Superclass) (isInterface : Bool)
  | implement (className interfaceName : String)
  | setInitFails (className : String) (on : Bool)
  | initClass (className : String)
  | classInfo (className : String)
  | defineMethod (id className name signature : String) (flags : UInt32) (script : BodyScript)
  | showDescriptor (method : String)
  | resolveMethod (className name signature : String)
  | detach (method : String)
  | bodyCalls (method : String)
  | poke (method field : String) (value : UInt64)
  | bindVariable (name : String) (object : ObjectTerm) (pin : Option HandleKind)
  | showObject (object : ObjectTerm)
  | setMoving (on : Bool)
  | lose (className : Option String)
  | disturb (service : Option Service) (after : Nat)
  | intrude (i : Option Intrusion)
  | raised
  | defineChain (id : String)
  | defineHook (script : HookScript)
  | register (chain method hook : String)
  | unregister (chain method hook : String)
  | callbacks (chain method : String)
  | defineInterceptor (id : String) (handler : HandlerSource) (onHost : Bool)
      (settings : Settings.Overrides)
  | dropInterceptor (id : String)
  | transaction (interceptor : String) (installs : List Installation) (commit : Bool)
  | showRecord (interceptor method : String)
  | call (c : CallTerms ValueTerm)
  | dispatch (c : Option (CallTerms ValueTerm)) (fill : UInt8)
  | callUnhooked (interceptor : String) (c : CallTerms ObjectTerm)
  | callInherited (interceptor : String) (c : CallTerms ObjectTerm)
  | convertArgument (method : String) (index : Nat) (declared : Option Tag) (object : ObjectTerm)
  | convertArguments (method shorty : String) (args : List ObjectTerm)
  | convertResult (method : String) (declared : Option Tag) (object : ObjectTerm)
  | wrapResult (value : ValueTerm)
  | boxFrame (shorty : String) (isStatic readStatic emptyArgsArray : Bool) (args : List ValueTerm)
  | run (script : List Statement)
  | refused (what : String)

inductive Failure
  | call (e : CallError)
  | install (e : InstallError)
  | refused (what : String)
  deriving DecidableEq

structure InstallView where
  result : Except ErrorView (Nat × String)
  installed : List String

structure BoxedFrameView where
  receiver : ObjectView
  array : ObjectView
  elements : List ObjectView
  before : List UInt64
  after : List UInt64
  localHandles : Nat
  deriving DecidableEq

inductive Answer
  | nothing
  | classId (c : ClassId)
  | classInfo (c : Class) (superclass : Option String)
  | descriptor (d : DescriptorView)
  | method (name : Option String)
  | count (n : Nat)
  | flag (b : Bool)
  | priority (p : Int)
  | callbacks (list : List (String × Int))
  | object (o : ObjectView)
  | interceptor (i : Interceptor)
  | transaction (installs : List InstallView) (committed : Option Nat)
  | record (isHooked : Bool) (r : Option RecordView)
  | value (v : ValueView)
  | values (vs : List ValueView)
  | result (o : ObjectView)
  | noMethod
  | dispatched (raw : UInt64) (raised : Option ErrorView) (slots : List UInt64)
  | boxedFrame (v : BoxedFrameView)
  | raised (errors : List ErrorView)
  | failed (e : ErrorView)
  | refused (what : String)
  | fault (f : Fault)

structure Report where
  answer : Answer
  collections : Nat
  locals : Nat
  globals : Nat
  notes : List Note

end Detour.Scenario
