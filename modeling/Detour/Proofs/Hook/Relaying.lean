import Detour.Proofs.Hook.Bypass

/-! Handlers that make one call and answer what it comes to. Whatever the call is, its outcome is wrapped for
the handler and unwrapped for the caller: a value and an exception object go on as they are, and any other
error becomes a throwable with its message, once. -/
namespace Detour

open World

variable {σ : Type} {p : Rights σ} {w x y z : World σ}

def InstalledHook.Answers (r : InstalledHook) (w : World σ) : Except RuntimeError Value → Prop
  | .ok v => v.tag = r.shorty.result ∧
      ∀ s, v = .reference s → (∃ k, w.vm.heap.Denotes s k) ∧ w.Returns r.method s
  | .error _ => True

/-- What a caller is given in `z` for the outcome of a body in `y`: the same value or the same exception.
Any other error becomes a new throwable with its message. -/
inductive Handed (y z : World σ) : Except RuntimeError Value → Except RuntimeError Value → Prop
  | value {v} (carried : Carried y.vm.heap z.vm.heap v v) : Handed y z (.ok v) (.ok v)
  | exception {e} (heap : z.vm.heap = y.vm.heap) : Handed y z (.error (.exception e)) (.error (.exception e))
  | other {e thrown} (plain : ∀ s, e ≠ .exception s)
    (made : z.vm.heap.get? thrown = some (.throwable e.message)) :
    Handed y z (.error e) (.error (.exception thrown))

theorem World.Returns.handled {m : MethodAddress} {s : Option Ref} (returns : w.Returns m s)
    (handled : Handled w x) : x.Returns m s := by
  intro q info c is known declared
  rw [handled] at known ⊢
  obtain ⟨d, found, there⟩ := methodIff.mp known
  obtain ⟨k, t, fits⟩ := isInstanceIff.mp (returns q info c is (methodIff.mpr ⟨d, found, there⟩) declared)
  exact isInstanceIff.mpr ⟨k, t, fits⟩

theorem managedOther {e : RuntimeError} (plain : ∀ s, e ≠ .exception s) :
    Step.Ends (· = .referencesExhausted) (managedException (.runtime e)) w fun m x =>
      Calm w x ∧ ∃ thrown, m = .exception thrown ∧ x.vm.heap.get? thrown = some (.throwable e.message) := by
  have allocates : Step.Ends (· = .referencesExhausted) (do
      let r ← vmStep (Vm.allocate (.throwable e.message))
      return RuntimeError.exception r) w fun m x =>
        Calm w x ∧ ∃ thrown, m = .exception thrown ∧ x.vm.heap.get? thrown = some (.throwable e.message) := by
    refine Step.endsBind.mpr (vmStepEnds.mpr ((Vm.allocateEnds
      (T := (· = .referencesExhausted)) rfl _).weaken fun r vm made => ?_))
    exact ⟨.ofVm made.calm, r, rfl, (Heap.denotesGet made.denotes).trans made.object⟩
  cases e with
  | exception s => exact (plain s rfl).elim
  | _ => exact allocates

section Relay

variable {g : Guest σ} {depth index id : Nat} {r : InstalledHook} {d : Descriptor} {receiver : Option Ref}
  {args : List Value} {all : List Passed} {boxed : BoxedFrame} {frame : Frame} {u : World σ}
  {inner : Act σ RuntimeError Value}
  {rest : Except CallError (Option Ref) → Machine σ (Except CallError (Option Ref))}

structure Relays (p : Rights σ) (g : Guest σ) (depth id : Nat) (r : InstalledHook) (boxed : BoxedFrame)
    (u x : World σ) (inner : Act σ RuntimeError Value)
    (rest : Except CallError (Option Ref) → Machine σ (Except CallError (Option Ref))) : Prop where
  run : (r.interceptor.handler.answer g (call g depth) ⟨id, boxed⟩).run u = (do
    let outcome ← inner.attempt
    let outcome ← wrapOutcome outcome
    rest outcome) x
  back : ∀ outcome y, inner.run x = .ok (outcome, y) → ∀ answer z, Calm y z →
    (∀ obj, answer = .ok obj → ∃ k, z.vm.heap.Denotes obj k) →
    Step.Ends (fun _ => False) (rest answer) z fun result v => result = answer ∧ Handled z v

namespace Relays

theorem called (relays : Relays p g depth id r boxed u x inner rest)
    (entered : Entered g depth index id r receiver args w all boxed frame u) :
    (call g (depth + 1) (.live index) receiver args).run w = (do
      let outcome ← inner.attempt
      let result ← rest (← wrapOutcome outcome)
      finishCall r frame boxed result) x :=
  entered.run.trans ((Step.bindSame relays.run).trans (by simp only [bind_assoc]))

theorem answered {outcome : Except RuntimeError Value} {answer : Except CallError (Option Ref)}
    (relays : Relays p g depth id r boxed u x inner rest) (lawful : g.Lawful p) (ready : Ready p u)
    (run : inner.run x = .ok (outcome, y)) (wraps : wrapOutcome outcome y = .ok (answer, z)) (calm : Calm y z)
    (live : ∀ obj, answer = .ok obj → ∃ k, z.vm.heap.Denotes obj k) :
    ∃ v, (r.interceptor.handler.answer g (call g depth) ⟨id, boxed⟩).run u = .ok (answer, v) ∧
      Handled z v ∧ Leads p u.vm.handles.next u v := by
  obtain ⟨_, v, ended, rfl, handled⟩ := (relays.back outcome y run answer z calm live).sure
  have answered := relays.run.trans ((Step.bindRun run).trans ((Step.bindRun wraps).trans ended))
  have respects := handlerRespects lawful (callRespects lawful depth) r.interceptor.handler ⟨id, boxed⟩
  have leads := Step.Ends.result (respects u ready) answered
  exact ⟨v, answered, handled, leads⟩

theorem value {v : Value} (relays : Relays p g depth id r boxed u x inner rest) (lawful : g.Lawful p)
    (steady : Steady p w) (sound : Sound w) (active : Active w index d id r)
    (entered : Entered g depth index id r receiver args w all boxed frame u)
    (run : inner.run x = .ok (.ok v, y)) (quiet : y.disturbed = []) (answers : r.Answers y (.ok v)) :
    RanOut y 1 ((call g (depth + 1) (.live index) receiver args).run w) ∨
      ∃ obj z z', (call g (depth + 1) (.live index) receiver args).run w = .ok (.ok v, z') ∧
        Wrapped y v obj z ∧ Handled z z' ∧ y.vm.heap.Spends 1 z'.vm.heap := by
  have later := steady.tidy entered.tidy
  rcases (wrapOutcomeCosts (.ok v)).runsOut (wrapEnds v quiet) with ran | ⟨_, z, wraps, ⟨obj, rfl, wrapped⟩, spends⟩
  · refine Or.inl ⟨ran.short, (relays.called entered).trans ?_⟩
    exact (Step.bindRun run).trans (Step.bindFault ran.run)
  have live : ∀ s, v = .reference s → ∃ k, y.vm.heap.Denotes s k := fun s is => (answers.2 s is).1
  obtain ⟨v', answered, handled, leads⟩ :=
    relays.answered lawful later.ready run wraps wrapped.calm fun _ same => by
      cases same
      exact wrapped.live live
  obtain ⟨info, known⟩ := entered.known active steady.ready sound leads
  have converts : convertOutcome r (.ok obj) v' = .ok (.ok v, v') := by
    unfold convertOutcome
    rw [← answers.1]
    refine wrapped.convertRun handled.heap (active.hooked.method ▸ known) fun s is => ?_
    subst is
    exact (wrapped.same ▸ (answers.2 s rfl).2).handled handled
  obtain ⟨z', ended, served, released⟩ :=
    entered.finishes active leads (entered.foreign steady.owned) (later.leads leads).lost answered converts
  have clear : z'.pending = none := served.pending.trans (later.leads leads).ready.clear
  rw [handOverOk _ _ clear, ← answers.1, Value.ofRawToRaw] at ended
  have handled := handled.trans released
  exact Or.inr ⟨obj, z, z', ended, wrapped, handled, handled.heap ▸ spends⟩

theorem error {e : RuntimeError} (relays : Relays p g depth id r boxed u x inner rest) (lawful : g.Lawful p)
    (steady : Steady p w) (active : Active w index d id r)
    (entered : Entered g depth index id r receiver args w all boxed frame u)
    (run : inner.run x = .ok (.error e, y)) :
    RanOut y 1 ((call g (depth + 1) (.live index) receiver args).run w) ∨
      ∃ thrown z, (call g (depth + 1) (.live index) receiver args).run w = .ok (.error (.exception thrown), z) ∧
        Handed y z (.error e) (.error (.exception thrown)) ∧ z.vm.methods = y.vm.methods ∧ z.user = y.user ∧
        y.vm.heap.Spends 1 z.vm.heap := by
  have later := steady.tidy entered.tidy
  have wraps : wrapOutcome (.error e) y = .ok (.error (.runtime e), y) := rfl
  obtain ⟨v, answered, handled, leads⟩ := relays.answered lawful later.ready run wraps (.refl y) (by simp)
  have converts : convertOutcome r (.error (.runtime e)) v = .ok (.error (.runtime e), v) := rfl
  obtain ⟨z, ended, _, released⟩ :=
    entered.finishes active leads (entered.foreign steady.owned) (later.leads leads).lost answered converts
  have handled := handled.trans released
  rw [handOverError] at ended
  by_cases thrown : ∃ s, e = .exception s
  · obtain ⟨s, rfl⟩ := thrown
    have spends := (Heap.spendsNone handled.heap).more (Nat.zero_le 1)
    exact Or.inr ⟨s, _, ended, .exception handled.heap, handled.methods, handled.user, spends⟩
  · have plain : ∀ s, e ≠ .exception s := fun s is => thrown ⟨s, is⟩
    have becomes := (Costs.managedException (.runtime e)).runsOut (managedOther plain)
      (w := { z with raised := z.raised ++ [.runtime e], pending := none })
    rcases becomes with ran | ⟨_, z', made, ⟨calm, s, rfl, new⟩, spends⟩
    · exact Or.inl ⟨handled.heap ▸ ran.short, ended.trans (Step.bindFault ran.run)⟩
    · refine Or.inr ⟨s, z', ended.trans (Step.bindRun made), .other plain new, ?_, ?_, handled.heap ▸ spends⟩
      · exact calm.methods.trans handled.methods
      · exact calm.user.trans handled.user

end Relays

end Relay
end Detour
