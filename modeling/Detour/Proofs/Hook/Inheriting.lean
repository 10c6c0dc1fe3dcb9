import Detour.Proofs.Declarations
import Detour.Proofs.Hook.Bypass

/-! Calls of the inherited implementation. The receiver and the arguments are pinned before the method is
looked up, because a superclass may be initialized on the way; then the method that the superclass offers is
called through its entry point, so a hook of its own is entered. -/
namespace Detour

open World

variable {σ ε α : Type} {w x v : World σ}

theorem withLocalsRun {targets : List (Option Ref)} {hs : List Handle} {action : List Handle → Act σ ε α}
    (made : targets.mapM createLocal w = .ok (hs, x)) :
    (withLocals targets action).run w = (do
      let outcome ← (action hs).attempt
      releaseAll hs
      return outcome) x := by
  unfold withLocals
  rw [Action.liftBindRun made, Action.runLift]
  refine congrFun (bind_congr fun outcome => ?_) x
  rw [Action.runLift]
  refine bind_congr fun _ => ?_
  cases outcome <;> rfl

structure Retained (w : World σ) (o : Option Nat) (os : List (Option Nat)) (h : Handle) (hs : List Handle)
    (x : World σ) : Prop where
  handled : Handled w x
  calm : Calm w x
  receiver : x.vm.Held h o
  args : List.Forall₂ x.vm.Held hs os
  distinct : (hs ++ [h]).Nodup
  fresh : ∀ g ∈ hs ++ [h], Fresh w g x

theorem Retained.live {o : Option Nat} {os : List (Option Nat)} {h : Handle} {hs : List Handle}
    (retained : Retained w o os h hs x) : ∀ g ∈ hs ++ [h], ∃ o, x.vm.Held g o := by
  intro g mem
  rcases List.mem_append.mp mem with arg | last
  · obtain ⟨i, there, rfl⟩ := List.mem_iff_getElem.mp arg
    exact ⟨_, (List.forall₂_iff_get.mp retained.args).2 i there (by rwa [← retained.args.length_eq])⟩
  · obtain rfl := List.mem_singleton.mp last
    exact ⟨_, retained.receiver⟩

section Inherited

variable {invoke : Invoker σ} {m : MethodAddress} {d : Descriptor} {info : Method} {c s : ClassId} {r : Ref}
  {rs : List (Option Ref)} {o : Option Nat} {os : List (Option Nat)} {h : Handle} {hs : List Handle}

def callAbove (invoke : Invoker σ) (m : MethodAddress) (d : Descriptor) (receiver args : List Handle) :
    Act σ CallError (Option Ref) := do
  match d.declaringClass.bind (← get).vm.classes.superclass?, receiver with
  | some superclass, [r] => callPinned invoke m superclass r args
  | _, _ => return none

theorem createRetained (denotes : w.vm.heap.Denotes (some r) o) (denote : List.Forall₂ w.vm.heap.Denotes rs os) :
    ∃ h hs u x, [some r].mapM createLocal w = .ok ([h], u) ∧ rs.mapM createLocal u = .ok (hs, x) ∧
      Retained w o os h hs x := by
  obtain ⟨_, u, first, ⟨calm, heap, held, _, fresh⟩, handled⟩ := ((createAllEnds (T := fun _ => False) rfl
    (List.Forall₂.cons denotes .nil)).both (Handles.createAll [some r] w)).sure
  obtain ⟨hs, x, second, ⟨calm', heap', args, distinct, fresh'⟩, handled'⟩ :=
    ((createAllEnds (T := fun _ => False) heap denote).both (Handles.createAll rs u)).sure
  cases held with
  | @cons h _ _ _ receiver rest =>
    cases rest
    have older := fresh h (by simp)
    refine ⟨h, hs, u, x, first, second, ?_⟩
    exact {
      handled := handled.trans handled'
      calm := calm.trans calm'
      receiver := Vm.Calm.holds calm'.vm receiver
      args
      distinct := List.nodup_append.mpr ⟨distinct, by simp, fun g mem f last same => by
        obtain rfl : f = h := by simpa using last
        exact Nat.not_le_of_lt older.2 (same ▸ (fresh' g mem).1)⟩
      fresh := fun g mem => by
        rcases List.mem_append.mp mem with arg | last
        · exact (fresh' g arg).before calm
        · obtain rfl : g = h := by simpa using last
          exact older.after calm' }

variable (invoke) in
theorem callInheritedRun (found : w.descriptor? m = some d) (dynamic : d.isStatic = false)
    (declared : d.declaringClass = some c) (above : w.vm.classes.superclass? c = some s)
    (denotes : w.vm.heap.Denotes (some r) o) (denote : List.Forall₂ w.vm.heap.Denotes rs os) :
    ∃ h hs x, Retained w o os h hs x ∧ (callInherited invoke m (some r) rs).run w = (do
      let outcome ← (callPinned invoke m s h hs).attempt
      releaseAll (hs ++ [h])
      return outcome) x := by
  obtain ⟨h, hs, u, x, first, second, retained⟩ := createRetained denotes denote
  refine ⟨h, hs, x, retained, ?_⟩
  have climbs : d.declaringClass.bind x.vm.classes.superclass? = some s := by
    rw [declared, retained.handled.classes]
    exact above
  have inner : (callAbove invoke m d [h] hs).attempt x = (callPinned invoke m s h hs).attempt x := by
    unfold callAbove Action.attempt
    rw [Action.getBindRun, climbs]
  unfold callInherited
  rw [Action.liftBindRun (descriptorRun found)]
  simp only [dynamic, Bool.false_eq_true, if_false]
  rw [withLocalsRun first]
  refine (Step.bindSame (withLocalsRun second)).trans ?_
  rw [bind_assoc]
  refine (Step.bindSame inner).trans (congrFun (bind_congr fun outcome => ?_) x)
  have together : (releaseAll (hs ++ [h]) : Machine σ Unit) = (do releaseAll hs; releaseAll [h]) :=
    List.forM_append
  simp only [together, bind_assoc, pure_bind]

theorem callPinnedMissing (known : method m w = .ok (info, w))
    (missing : w.vm.resolve s info.name info.signature = none) :
    (callPinned invoke m s h hs).run w =
      .ok (.error (.runtime (.noSuchMethod (w.vm.classes.name s) info.name info.signature)), w) := by
  unfold callPinned
  rw [Action.liftBindRun known]
  rw [Action.getBindRun, missing]
  rfl

theorem callPinnedParts {index : Nat} {e : Descriptor} (known : method m w = .ok (info, w))
    (resolved : w.vm.resolve s info.name info.signature = some index)
    (found : w.descriptor? (.live index) = some e) :
    (callPinned invoke m s h hs).run w =
      (if (e.isStatic || w.vm.classes.isInterface s) = true then
        Action.mapError .runtime (World.initClass s) >>= fun _ => callFound invoke m (.live index) s h hs
      else callFound invoke m (.live index) s h hs).run w := by
  unfold callPinned
  rw [Action.liftBindRun known]
  rw [Action.getBindRun, resolved]
  dsimp only
  rw [Action.liftBindRun (descriptorRun found)]
  rfl

theorem initClassReady (quiet : w.disturbed = []) {info : Class} (found : w.vm.classes.get? c = some info)
    (starts : info.initFails = false) :
    Action.Ends (· = .referencesExhausted) (World.initClass c) w fun r x =>
      r = .ok () ∧ Calm w x ∧ w.vm.classes.Kin x.vm.classes ∧ x.disturbed = [] := by
  have passed : (World.initClass c).run w = (vmAction (Vm.initClass c) : Act σ RuntimeError Unit).run w :=
    Action.bindRun (serveRun .init quiet)
  have ends : Action.Ends (· = .referencesExhausted) (vmAction (Vm.initClass c) : Act σ RuntimeError Unit) w
      fun r x => r = .ok () ∧ Calm w x ∧ w.vm.classes.Kin x.vm.classes ∧ x.disturbed = [] := by
    refine vmActionEnds.mpr (Step.Ends.weaken (Step.Ends.both
      (Vm.initClassKin (T := (· = .referencesExhausted)) rfl found starts)
      (Vm.initClassEnds (T := fun _ => True) trivial fun _ => trivial)) fun r vm ⟨⟨done, kin⟩, calm, _⟩ => ?_)
    exact ⟨done, .ofVm calm, kin, quiet⟩
  unfold Action.Ends Step.Ends at ends ⊢
  rwa [passed]

theorem callFoundRun {target : MethodAddress} {k : Nat} (held : w.vm.Held h (some k))
    (args : List.Forall₂ w.vm.Held hs os) (faithful : w.lost = none)
    (is : ∀ t, w.vm.heap.Denotes (some t) (some k) → w.IsA t s) :
    ∃ t ts, w.vm.heap.Denotes (some t) (some k) ∧ List.Forall₂ w.vm.heap.Denotes ts os ∧
      (callFound invoke m target s h hs).run w = (callChecked invoke target target (some t) ts).run w := by
  obtain ⟨a, _, resolved, rfl, denotes⟩ := (resolveEnds (T := fun _ => False) held faithful).sure
  obtain ⟨ts, _, given, rfl, denote⟩ := (resolveAllEnds (T := fun _ => False) args faithful).sure
  cases a with
  | none => simp at denotes
  | some t =>
    refine ⟨t, ts, denotes, denote, ?_⟩
    unfold callFound
    rw [Action.liftBindRun resolved]
    dsimp only
    rw [Action.liftBindRun given, Action.liftBindRun (isInstanceIff.mpr (is t denotes))]
    rfl

variable (invoke) in
theorem callPinnedRun {index k : Nat} {e : Descriptor} (known : method m w = .ok (info, w))
    (resolved : w.vm.resolve s info.name info.signature = some index)
    (found : w.descriptor? (.live index) = some e) (dynamic : e.isStatic = false)
    (starts : (w.vm.classes.get? s).any (·.initFails) = false) (quiet : w.disturbed = [])
    (held : w.vm.Held h (some k)) (args : List.Forall₂ w.vm.Held hs os) (faithful : w.lost = none)
    (is : ∃ q, w.vm.heap.Classed k q ∧ s ∈ w.vm.classes.lineage q) :
    RanOut w 1 ((callPinned invoke m s h hs).run w) ∨
      ∃ x t ts, Calm w x ∧ w.vm.heap.Spends 1 x.vm.heap ∧ w.vm.classes.Kin x.vm.classes ∧ x.disturbed = [] ∧
        x.vm.heap.Denotes (some t) (some k) ∧ List.Forall₂ x.vm.heap.Denotes ts os ∧
        (callPinned invoke m s h hs).run w =
          (callChecked invoke (.live index) (.live index) (some t) ts).run x := by
  have parts : (callPinned invoke m s h hs).run w = _ := callPinnedParts known resolved found
  have reaches {x : World σ} (calm : Calm w x) (kin : w.vm.classes.Kin x.vm.classes) :
      ∃ t ts, x.vm.heap.Denotes (some t) (some k) ∧ List.Forall₂ x.vm.heap.Denotes ts os ∧
        (callFound invoke m (.live index) s h hs).run x =
          (callChecked invoke (.live index) (.live index) (some t) ts).run x := by
    obtain ⟨q, classed, inherits⟩ := is
    refine callFoundRun (Vm.Calm.holds calm.vm held) (args.imp fun _ _ => Vm.Calm.holds calm.vm)
      (calm.lost.trans faithful) fun t denotes => ?_
    exact ⟨k, q, denotes, calm.vm.classed classed,
      ClassTable.lineageAssignable (kin.lineage q ▸ inherits)⟩
  rw [dynamic, Bool.false_or] at parts
  cases interface_ : w.vm.classes.isInterface s with
  | false =>
    rw [interface_, if_neg (by simp)] at parts
    obtain ⟨t, ts, denotes, denote, run⟩ := reaches (.refl w) (.refl _)
    have spends := (Heap.spendsNone (h := w.vm.heap) rfl).more (Nat.zero_le 1)
    exact Or.inr ⟨w, t, ts, .refl w, spends, .refl _, quiet, denotes, denote, parts.trans run⟩
  | true =>
    rw [interface_, if_pos rfl, Action.runMapError] at parts
    obtain ⟨there, is, _⟩ := (Option.any_eq_true ..).mp interface_
    have begins : there.initFails = false := by simpa [is] using starts
    rcases (Costs.initClass s).runsOut (initClassReady quiet is begins) with
      ran | ⟨_, x, run, ⟨rfl, calm, kin, still⟩, spends⟩
    · exact Or.inl (ran.first parts)
    · obtain ⟨t, ts, denotes, denote, reached⟩ := reaches calm kin
      exact Or.inr ⟨x, t, ts, calm, spends, kin, still, denotes, denote,
        parts.trans ((Step.bindRun run).trans reached)⟩

end Inherited
end Detour
