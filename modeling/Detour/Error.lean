import Detour.Tag
import Detour.Reference

/-! What can go wrong, by who reports it: the managed runtime, the descriptor layout check, an install,
or a call. Each cause has one text; a wrapped cause keeps its own. -/
namespace Detour

inductive RuntimeError
  | exception (thrown : Ref)
  | outOfMemory (what : String)
  | classInitFailed (className : String)
  | noSuchMethod (className name signature : String)
  deriving DecidableEq

inductive LayoutError
  | version (expected found : Nat)
  | fieldOffset (field : String) (expected found : Nat)
  | tooSmall (required found : Nat)
  deriving DecidableEq, Repr

inductive InstallError
  | unresolvable (className name signature : String)
  | abstractMethod (method : String)
  | invalidShorty (shorty : String)
  | unsupportedArchitecture (word : String)
  | installRace (method : String)
  | layout (e : LayoutError)
  | runtime (e : RuntimeError)
  deriving DecidableEq

inductive CallError
  | argumentCountMismatch (expected actual : Nat)
  | argumentTypeMismatch (method : String) (index : Nat) (expected actual : String)
  | nullReceiver (method : String)
  | receiverMismatch (expected actual : String)
  | returnTypeMismatch (expected actual : String)
  | nullResult (kind : String)
  | handler (thrown : Ref)
  | hook (e : InstallError)
  | runtime (e : RuntimeError)
  deriving DecidableEq

def RuntimeError.message : RuntimeError → String
  | exception r => "managed exception " ++ r.label ++ " pending"
  | outOfMemory what => "out of memory while allocating " ++ what
  | classInitFailed c => "initialization of class " ++ c ++ " failed"
  | noSuchMethod c n s => "no method " ++ n ++ s ++ " in " ++ c ++ " or its superclasses"

def LayoutError.message : LayoutError → String
  | version expected found =>
    "descriptor layout version " ++ toString found ++ " is not supported (expected " ++
      toString expected ++ ")"
  | fieldOffset field expected found =>
    "descriptor field `" ++ field ++ "` is at offset " ++ toString found ++ ", expected " ++
      toString expected
  | tooSmall required found =>
    "descriptor size " ++ toString found ++ " is smaller than the " ++ toString required ++
      " bytes accessed"

def InstallError.message : InstallError → String
  | unresolvable c n s => "cannot resolve method " ++ c ++ "." ++ n ++ s
  | abstractMethod m => "cannot hook abstract method " ++ m
  | invalidShorty s => "invalid shorty `" ++ s ++ "`"
  | unsupportedArchitecture s => "unsupported architecture `" ++ s ++ "`"
  | installRace m => "concurrent install of " ++ m ++ " detected"
  | layout e => e.message
  | runtime e => e.message

def CallError.message : CallError → String
  | argumentCountMismatch expected actual =>
    "wrong number of arguments; expected " ++ toString expected ++ ", got " ++ toString actual
  | argumentTypeMismatch method index expected actual =>
    "method " ++ method ++ " argument " ++ toString index ++ " has type " ++ expected ++ ", got " ++
      actual
  | nullReceiver m => "null receiver for instance method " ++ m
  | receiverMismatch expected actual =>
    "expected receiver of type " ++ expected ++ ", got " ++ actual
  | returnTypeMismatch expected actual =>
    "invalid primitive conversion from " ++ actual ++ " to " ++ expected
  | nullResult kind => "null result where primitive " ++ kind ++ " was expected"
  | handler r => "handler threw " ++ r.label
  | hook e => e.message
  | runtime e => e.message

def CallError.thrown? : CallError → Option Ref
  | handler r => some r
  | runtime (.exception r) => some r
  | hook (.runtime (.exception r)) => some r
  | _ => none

end Detour
