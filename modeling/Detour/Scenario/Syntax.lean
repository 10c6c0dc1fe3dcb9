import Detour.Error
import Detour.Value

/-! A scenario's scripts: what method bodies, handlers and callbacks do, and what single steps evaluate. Terms
denote objects, values and errors; statements are run for their effects. A term that was not understood stays
in place until its turn comes: then it fails, or as the term of an error is itself one. A misuse is reported
as an allocation that failed. -/
namespace Detour.Scenario

inductive Misuse
  | staleReference
  | unknownVariable | unknownLocal | unknownClass | unknownMethod | unknownInterceptor | unknownChain
  | notHooked | notReference | notArray | noArgument | operands | boxingNonPrimitive | nullError
  | badObject | badValue | badStatement | badError | badTag
  | transactionOpen | callDepth | argumentCount | argumentKind
  deriving DecidableEq, Repr

def Misuse.text : Misuse → String
  | staleReference => "stale reference"
  | unknownVariable => "unknown variable"
  | unknownLocal => "unknown local"
  | unknownClass => "unknown class"
  | unknownMethod => "unknown method"
  | unknownInterceptor => "unknown interceptor"
  | unknownChain => "unknown chain"
  | notHooked => "not hooked"
  | notReference => "not a reference"
  | notArray => "not an array"
  | noArgument => "no argument"
  | operands => "operands"
  | boxingNonPrimitive => "boxing a non-primitive"
  | nullError => "null error"
  | badObject => "bad object expression"
  | badValue => "bad value expression"
  | badStatement => "bad statement"
  | badError => "bad error expression"
  | badTag => "tag"
  | transactionOpen => "transaction open"
  | callDepth => "call depth"
  | argumentCount => "argument count"
  | argumentKind => "argument kind"

def Misuse.error (m : Misuse) : CallError := .runtime (.outOfMemory m.text)

mutual

inductive ObjectTerm
  | null
  | variable (name : String)
  | scoped (name : String)
  | box (value : ValueTerm)
  | text (s : String)
  | throwable (message : String)
  | instance (className : String)
  | deref (value : ValueTerm)
  | element (array : ObjectTerm) (index : Nat)
  | receiver
  | argument (index : Nat)
  | result
  | array
  | payload
  | reflected
  | proceed (receiver : ObjectTerm) (args : ArgumentTerms)
  | inherited (receiver : ObjectTerm) (args : ArgumentTerms)
  | unknown

inductive ArgumentTerms
  | same
  | list (terms : List ObjectTerm)

inductive ValueTerm
  | literal (v : Value)
  | reference (object : ObjectTerm)
  | unbox (object : ObjectTerm)
  | argument (index : Nat)
  | add (a b : ValueTerm)
  | mul (a b : ValueTerm)
  | call (method : String) (receiver : ObjectTerm) (args : List ValueTerm)
  | unknown

end

inductive ErrorTerm
  | handler (object : ObjectTerm)
  | exception (object : ObjectTerm)
  | plain (e : CallError)
  | unknown

inductive Statement
  | note (content : String)
  | view
  | see (object : ObjectTerm)
  | seeValue (value : ValueTerm)
  | keep (name : String) (object : ObjectTerm)
  | eval (object : ObjectTerm)
  | moving (on : Bool)
  | handles
  | when (compared : List ValueTerm) (same other : List Statement)
  | attempt (body : List Statement)
  | raise (e : ErrorTerm)
  | register (chain method hook : String)
  | unregister (chain method hook : String)
  | install (interceptor method : String)
  | setReceiver (object : ObjectTerm)
  | setResult (object : ObjectTerm)
  | setArgument (index : Nat) (object : ObjectTerm)
  | setThrowable (e : ErrorTerm)
  | unknown

structure BodyScript where
  statements : List Statement
  result : ValueTerm

structure HandlerScript where
  statements : List Statement
  result : ObjectTerm

inductive HookKind
  | both | beforeOnly | afterOnly | neither
  deriving DecidableEq, Repr

structure HookScript where
  name : String
  ownPriority : Int
  kind : HookKind
  before : List Statement
  after : List Statement

namespace HookScript

def defaultPriority : Int := 50

def priority (h : HookScript) : Int := if h.kind = .both then h.ownPriority else defaultPriority

def overridesBefore (h : HookScript) : Bool := h.kind = .both || h.kind = .beforeOnly

def overridesAfter (h : HookScript) : Bool := h.kind = .both || h.kind = .afterOnly

end HookScript
end Detour.Scenario
