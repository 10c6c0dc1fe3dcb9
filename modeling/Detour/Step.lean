import Detour.Fault

/-! Computations over a state. A step may end in a fault, and then leaves no state behind; an action is a
step whose result may be an error, with the state kept either way. -/
namespace Detour

abbrev Step (s : Type) (α : Type) := StateT s (Except Fault) α

abbrev Action (s : Type) (ε : Type) (α : Type) := ExceptT ε (StateT s (Except Fault)) α

namespace Step

variable {s t α : Type}

def fault (f : Fault) : Step s α := fun _ => .error f

def ofExcept : Except Fault α → Step s α
  | .ok a => pure a
  | .error f => fault f

def require (f : Fault) : Option α → Step s α
  | some a => pure a
  | none => fault f

def zoom (part : t → s) (replace : t → s → t) (step : Step s α) : Step t α := fun w =>
  match step (part w) with
  | .error f => .error f
  | .ok (a, x) => .ok (a, replace w x)

end Step

def lift {s ε α : Type} (step : Step s α) : Action s ε α := ExceptT.lift step

namespace Action

variable {s t ε δ α : Type}

def zoom (part : t → s) (replace : t → s → t) (action : Action s ε α) : Action t ε α :=
  Step.zoom part replace action.run

def attempt (action : Action s ε α) : Step s (Except ε α) := action.run

def mapError (f : ε → δ) (action : Action s ε α) : Action s δ α := ExceptT.adapt f action

def ofExcept : Except ε α → Action s ε α
  | .ok a => pure a
  | .error e => throw e

end Action
end Detour
