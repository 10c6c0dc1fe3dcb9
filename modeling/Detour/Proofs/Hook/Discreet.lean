import Detour.Proofs.Hook.Along

/-! Code that reaches the pending error and the raised errors by the calls that it makes alone. User code is
taken to be of this kind; what the interception layer puts around it is. -/
namespace Detour

open World

variable {σ α : Type}

structure Untouched (w x : World σ) : Prop where
  pending : x.pending = w.pending
  raised : x.raised = w.raised

namespace Untouched

variable {w x : World σ}

theorem served {free : Handle → Prop} {still : Nat → Prop} (served : Served free still w x) :
    Untouched w x :=
  ⟨by rw [served.rest], by rw [served.rest]⟩

theorem aside (aside : Aside w x) : Untouched w x := ⟨by rw [aside], by rw [aside]⟩

end Untouched

/-- What code that is handed an invoker makes of a world: what it does by itself leaves the errors alone. -/
inductive Behaves (invoke : Invoker σ) (w : World σ) : World σ → Prop
  | rests : Behaves invoke w w
  | works {v x} (before : Behaves invoke w v) (untouched : Untouched v x) : Behaves invoke w x
  | calls {v x m receiver args r} (before : Behaves invoke w v)
    (run : (invoke m receiver args).run v = .ok (r, x)) : Behaves invoke w x

theorem Behaves.trans {invoke : Invoker σ} {w v x : World σ} (first : Behaves invoke w v)
    (second : Behaves invoke v x) : Behaves invoke w x := by
  induction second with
  | rests => exact first
  | works _ untouched ih => exact ih.works untouched
  | calls _ run ih => exact ih.calls run

def Discreet (invoke : Invoker σ) (c : Machine σ α) : Prop :=
  ∀ w, Step.Ends (fun _ => True) c w fun _ x => Behaves invoke w x

structure Guest.Discreet (g : Guest σ) : Prop where
  body : ∀ index invoke receiver args, Detour.Discreet invoke (g.body index invoke receiver args).run
  handler : ∀ id invoke i, Detour.Discreet invoke (g.handler id invoke i).run
  before : ∀ id invoke s, Detour.Discreet invoke (g.before id invoke s)
  after : ∀ id invoke s, Detour.Discreet invoke (g.after id invoke s)

theorem Behaves.lax {invoke : Invoker σ} : Lax (Behaves invoke) where
  trans := Behaves.trans
  aside aside := .works .rests (.aside aside)
  counted _ _ := .works .rests ⟨rfl, rfl⟩

theorem Behaves.called {invoke : Invoker σ} : invoke.Along (Behaves invoke) := fun _ _ _ _ =>
  (Step.Ends.ran Step.endsAny).weaken fun _ _ ⟨run, _⟩ => .calls .rests run

theorem Guest.Discreet.along {g : Guest σ} {invoke : Invoker σ} (discreet : g.Discreet) :
    g.Along (Behaves invoke) invoke where
  body index := discreet.body index invoke
  handler id := discreet.handler id invoke
  before id := discreet.before id invoke
  after id := discreet.after id invoke

end Detour
