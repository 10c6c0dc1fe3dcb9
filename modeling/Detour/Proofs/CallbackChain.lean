import Detour.Proofs.Hook.Forwarding
import Detour.Proofs.Hook.Turns
import Detour.Proofs.MovingObjects

/-! A hooked call that a chain of callbacks answers. The callbacks that were registered when it began have
their turns in order, whatever they do, and the caller is given what was established last. -/
namespace Detour

open World

variable {σ : Type} {p : Rights σ} {w u : World σ}

namespace Chain

variable {g : Guest σ} {invoke : Invoker σ} {i : HookedCall} {hooks : List Callback} {c : Chronicle σ}

def Delivers (w : World σ) (outcome : Except CallError (Option Ref)) : Standing → Prop
  | .ok k => ∃ r, outcome = .ok r ∧ w.vm.heap.Denotes r k
  | .error e => outcome = .error e

/-- A whole call. Each callback is shown what was established last before its turn, and the outcome is what
was established last of all. -/
structure Chronicle.Answers (p : Rights σ) (g : Guest σ) (invoke : Invoker σ) (i : HookedCall)
    (hooks : List Callback) (u : World σ) (outcome : Except CallError (Option Ref)) (z : World σ)
    (c : Chronicle σ) : Prop where
  tells : c.Tells p g invoke i hooks u []
  before : ∀ earlier t later, c.befores = earlier ++ t :: later →
    t.given.Shows (.ok none) ∧ t.left.Shows (t.set.getD (.ok none))
  call : ∀ o, c.call = some o → o.given.Shows (.ok none)
  after : ∀ earlier t later, c.afters = earlier ++ t :: later →
    t.given.Shows (standing c.verdict earlier) ∧ t.left.Shows (t.set.getD (standing c.verdict earlier))
  outcome : Delivers c.finish.world outcome (standing c.verdict c.afters)
  finish : Handled c.finish.world z

namespace Chronicle.Tells

variable {left : List Callback} {earlier later : List (Turn σ)} {t : Turn σ}

theorem beforeShows (tells : c.Tells p g invoke i hooks u left) (is : c.befores = earlier ++ t :: later) :
    t.given.Shows (.ok none) ∧ t.left.Shows (t.set.getD (.ok none)) := by
  have path := tells.before
  rw [is] at path
  have takes : ∀ k ∈ earlier, k.Takes p g.before invoke := fun k mem => tells.befores k (by simp [is, mem])
  have undecided : ∀ k ∈ earlier, k.establishes = none := fun k mem => by
    refine tells.undecided k ?_
    rw [is, List.dropLast_append_of_ne_nil (by simp)]
    exact List.mem_append_left _ mem
  have given := path.given takes tells.starts.empty
  rw [standingUndecided undecided] at given
  exact ⟨given, (tells.befores t (by simp [is])).shows given⟩

theorem callShows {o : Proceeding σ} (tells : c.Tells p g invoke i hooks u left) (is : c.call = some o) :
    o.given.Shows (.ok none) := by
  have across := tells.across
  rw [is] at across
  have undecided := tells.called.mp (by simp [is])
  cases across with
  | calls given =>
    refine given.shows ?_
    have shows_ := tells.reached
    rwa [standingUndecided undecided] at shows_

theorem afterShows (tells : c.Tells p g invoke i hooks u left) (is : c.afters = earlier ++ t :: later) :
    t.given.Shows (standing c.verdict earlier) ∧ t.left.Shows (t.set.getD (standing c.verdict earlier)) := by
  have path := tells.after
  rw [is] at path
  have takes : ∀ k ∈ earlier, k.Takes p g.after invoke := fun k mem => tells.afters k (by simp [is, mem])
  have given := path.given takes tells.resumed
  exact ⟨given, (tells.afters t (by simp [is])).shows given⟩

end Chronicle.Tells

theorem answerTold {m : MethodAddress} {id : Nat} {chain : Chain} {r : Option Ref} {y : Option Nat}
    {rs : List (Option Ref)} {ys : List (Option Nat)} (steady : Steady p u) (lawful : g.Lawful p)
    (respects : Invoker.Respects p invoke) (method : i.method u = .ok (m, u))
    (found : u.chains[id]? = some chain) (some_ : chain.callbacks m ≠ [])
    (arguments : i.arguments u = .ok (rs, u)) (denote : List.Forall₂ u.vm.heap.Denotes rs ys)
    (receiver : i.receiver u = .ok (r, u)) (denotes : u.vm.heap.Denotes r y) :
    Action.Ends (Blames p g invoke i (chain.callbacks m) u) (answer g invoke id i) u fun outcome z =>
      ∃ c : Chronicle σ, c.Answers p g invoke i (chain.callbacks m) u outcome z := by
  refine (answerCourse steady lawful respects method found rfl some_ arguments denote receiver denotes).weaken
    fun outcome z ⟨s, x, a, at_, handled, failed, passed⟩ => ?_
  obtain ⟨c, tells, finish⟩ : Told p g invoke i (chain.callbacks m) u ⟨s, x, a⟩ (.afters []) :=
    at_.told steady respects
  have shows_ := tells.finish
  rw [finish] at shows_
  refine ⟨c, tells, fun _ _ _ => tells.beforeShows, fun _ => tells.callShows, fun _ _ _ => tells.afterShows,
    ?_, finish ▸ handled⟩
  rw [finish]
  cases last : standing c.verdict c.afters with
  | error e =>
    rw [last] at shows_
    exact failed e shows_.1
  | ok k =>
    rw [last] at shows_
    obtain ⟨clean, rfl⟩ := shows_
    exact passed clean

end Chain

theorem Entered.told {depth index id c : Nat} {g : Guest σ} {r : InstalledHook} {d : Descriptor}
    {receiver : Option Ref} {args : List Value} {k : Option Nat} {all xs : List Passed} {boxed : BoxedFrame}
    {frame : Frame} {chain : Chain} (entered : Entered g depth index id r receiver args w all boxed frame u)
    (passing : Passing w r receiver args k xs all) (active : Active w index d id r) (steady : Steady p w)
    (lawful : g.Lawful p) (registered : w.chains[c]? = some chain) (some_ : chain.callbacks (.live index) ≠ []) :
    Action.Ends (Chain.Blames p g (call g depth) ⟨id, boxed⟩ (chain.callbacks (.live index)) u)
      (Chain.answer g (call g depth) c ⟨id, boxed⟩) u fun outcome z => ∃ told : Chain.Chronicle σ,
        told.Answers p g (call g depth) ⟨id, boxed⟩ (chain.callbacks (.live index)) u outcome z := by
  have tidy := entered.tidy
  have later := steady.tidy tidy
  obtain ⟨s, _, received, rfl, there⟩ :=
    (entered.keeps.receiverEnds (T := fun _ => False) passing.head passing.absent later.lost).sure
  obtain ⟨es, _, given, rfl, ys, denote, _⟩ :=
    (entered.keeps.argumentsEnds (T := fun _ => False) later.lost).sure
  have method := HookedCall.methodRun (i := ⟨id, boxed⟩) (tidy.records ▸ active.hooked.found) active.hooked.method
  exact Chain.answerTold later lawful (callRespects lawful depth) method (tidy.chains ▸ registered) some_ given
    denote received there

namespace Sample

def linked : Interceptor := { host with handler := .chain 0 }

def linkedRecord : InstalledHook := seized.record linked pick.descriptor

def joined : World Unit := mirrored.claimed (.live 0) (pick.descriptor.patched .compiledEntry 0) linkedRecord

def callbacks : Chain := ⟨[(.live 0, [⟨0, 50⟩, ⟨1, 50⟩])]⟩

end Sample

end Detour
