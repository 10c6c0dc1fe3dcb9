import Detour.Architecture
import Detour.Method.Patch

/-! The settings of an interceptor: defaults, overridden by words from the environment. A word that means
nothing is ignored. The words that switch an option on are case-sensitive. A word that names no architecture
is an error where settings are given one by one, and one that names no patch style is ignored. -/
namespace Detour

structure Settings where
  architecture : Option Architecture
  patchStyle : PatchStyle
  snapshotSlack : UInt64
  emptyArgsArray : Bool
  deriving DecidableEq, Repr

structure Environment where
  architecture : Option String
  patchStyle : Option String
  snapshotSlack : Option String
  emptyArgs : Option String
  deriving DecidableEq, Repr

namespace Settings

def standard : Settings := ⟨none, .compiledEntry, 16, false⟩

def size? (s : String) : Option UInt64 :=
  ((Text.decimal? (Text.trim s)).filter (· < UInt64.size)).map Nat.toUInt64

def isOn (s : String) : Bool := ["1", "true", "yes"].contains (Text.trim s)

def ofEnvironment (env : Environment) : Settings where
  architecture := env.architecture.bind Architecture.parse?
  patchStyle := (env.patchStyle.bind PatchStyle.parse?).getD standard.patchStyle
  snapshotSlack := (env.snapshotSlack.bind size?).getD standard.snapshotSlack
  emptyArgsArray := env.emptyArgs.elim standard.emptyArgsArray isOn

structure Overrides where
  architecture : Option String
  patchStyle : Option String
  snapshotSlack : Option UInt64
  emptyArgsArray : Option Bool
  deriving DecidableEq, Repr

def override (s : Settings) (o : Overrides) : Except InstallError Settings :=
  let others : Settings := {
    architecture := s.architecture
    patchStyle := (o.patchStyle.bind PatchStyle.parse?).getD s.patchStyle
    snapshotSlack := o.snapshotSlack.getD s.snapshotSlack
    emptyArgsArray := o.emptyArgsArray.getD s.emptyArgsArray }
  match o.architecture with
  | none => .ok others
  | some word => match Architecture.parse? word with
    | some a => .ok { others with architecture := some a }
    | none => .error (.unsupportedArchitecture word)

def resolved (s : Settings) : Architecture := s.architecture.getD .host

end Settings
end Detour
