import Detour.Proofs.MovingObjects
import Detour.Proofs.Vm.Handles

/-! Installs that fail. Whatever a failed install had done by itself is undone, at whichever point it
failed; what other code did while it was suspended stays as that code left it. -/
namespace Detour

open World

variable {σ : Type} {w x y z : World σ}

theorem Leads.orderly {p : Rights σ} {n : Nat} (leads : Leads p n w x) (orderly : w.vm.handles.Orderly) :
    x.vm.handles.Orderly :=
  leads.bare.orderly orderly

theorem Reachable.orderly {p : Rights σ} {arch : Architecture} {layout : Layout} {user : σ}
    (reachable : Reachable p (World.start (Vm.start arch layout) user) w)
    (ready : Ready p (World.start (Vm.start arch layout) user)) : w.vm.handles.Orderly :=
  (reachable.leads ready).orderly fun _ mem => nomatch mem

namespace Install

structure Leaves (w x : World σ) (keys : List (Handle × HandleKind)) : Prop where
  served : Served (fun _ => True) (fun _ => True) w x
  keys : x.vm.handles.keys = keys

structure Holds (w : World σ) (own : List Handle) (x : World σ) : Prop where
  leaves : Leaves w x (own.map (·, .globalHandle) ++ w.vm.handles.keys)
  fresh : ∀ h ∈ own, w.vm.handles.next ≤ h.id

theorem releaseLeaves (hs : List Handle) (w : World σ) :
    Step.Ends (fun _ => True) (releaseAll hs) w fun _ x =>
      Leaves w x (w.vm.handles.keys.filter (·.1 ∉ hs)) := by
  induction hs generalizing w with
  | nil => exact ⟨.refl w, by simp⟩
  | cons h hs ih =>
    change Step.Ends _ (releaseHandle h >>= fun _ => releaseAll hs) w _
    refine Step.endsBind.mpr ((releaseHandleEnds fun _ => trivial).weaken fun _ x same => ?_)
    subst same
    refine (ih (w.unpinned h)).weaken fun _ y leaves => ⟨?_, ?_⟩
    · exact Served.trans (.step (.released trivial)) leaves.served
    · rw [leaves.keys]
      simp [World.unpinned, List.filter_filter, Bool.and_comm]

namespace Holds

variable {own : List Handle}

theorem refl (w : World σ) : Holds w [] w := ⟨⟨.refl w, rfl⟩, by simp⟩

theorem calm (holds : Holds w own x) (calm : Calm x y) (next : y.vm.handles.next = x.vm.handles.next) :
    Holds w own y := by
  have same : y.vm.handles.keys = x.vm.handles.keys := Vm.Calm.keys calm.vm next
  exact ⟨⟨holds.leaves.served.trans calm.served, same.trans holds.leaves.keys⟩, holds.fresh⟩

theorem trans (first : Holds w own x) (second : Holds x [] y) : Holds w own y :=
  ⟨⟨first.leaves.served.trans second.leaves.served, second.leaves.keys.trans first.leaves.keys⟩, first.fresh⟩

theorem disturbs (holds : Holds w own x) (same : y = { x with disturbed := y.disturbed }) : Holds w own y := by
  have vm : y.vm = x.vm := by rw [same]
  refine holds.calm ⟨vm ▸ .refl, ?_⟩ (by rw [vm])
  rw [vm]
  exact same

theorem pin (holds : Holds w own x) (target : Option Ref) :
    Holds w (⟨x.vm.handles.next⟩ :: own) (x.pinned .globalHandle target) := by
  refine ⟨⟨holds.leaves.served.trans (pinnedCalm _ _).served, ?_⟩, fun h mem => ?_⟩
  · simp [World.pinned, holds.leaves.keys]
  · rcases List.mem_cons.mp mem with rfl | old
    · exact holds.leaves.served.vm.issued
    · exact holds.fresh h old

theorem release (holds : Holds w own x) (orderly : w.vm.handles.Orderly) :
    Step.Ends (fun _ => True) (releaseAll own) x fun _ y => Holds w [] y := by
  refine (releaseLeaves own x).weaken fun _ y leaves => ⟨⟨?_, ?_⟩, by simp⟩
  · exact holds.leaves.served.trans leaves.served
  · rw [leaves.keys, holds.leaves.keys]
    exact HandleTable.filterOwn _ holds.fresh orderly

theorem unpin {h : Handle} (holds : Holds w [h] x) (orderly : w.vm.handles.Orderly) :
    Holds w [] (x.unpinned h) := by
  refine ⟨⟨holds.leaves.served.trans (.step (.released trivial)), ?_⟩, by simp⟩
  have gone := HandleTable.filterOwn .globalHandle holds.fresh orderly
  rw [← holds.leaves.keys] at gone
  simpa [World.unpinned] using gone

theorem leave {hs : List Handle} (holds : Holds w [] x)
    (leaves : Leaves x y (x.vm.handles.keys.filter (·.1 ∉ hs))) :
    Leaves w y (w.vm.handles.keys.filter (·.1 ∉ hs)) := by
  refine ⟨holds.leaves.served.trans leaves.served, ?_⟩
  rw [leaves.keys, holds.leaves.keys]
  rfl

theorem orderly (holds : Holds w own x) (orderly : w.vm.handles.Orderly) : x.vm.handles.Orderly :=
  holds.leaves.served.vm.orderly orderly

end Holds

def Tame (intrude : MethodAddress → Act σ RuntimeError Unit) : Prop :=
  ∀ m y, y.vm.handles.Orderly →
    Action.Ends (fun _ => True) (intrude m) y fun _ z => z.vm.handles.Orderly

variable {intrude : MethodAddress → Act σ RuntimeError Unit} {i : Interceptor} {m : MethodAddress}

/-- An install in the middle of which other code ran: in `y`, where the install held handles of its `own`.
What that code left, `z`, is what there is now, without those handles. -/
def Around (intrude : MethodAddress → Act σ RuntimeError Unit) (m : MethodAddress) (w x : World σ) : Prop :=
  ∃ own y r z, Holds w own y ∧ (intrude m).run y = .ok (r, z) ∧
    Leaves z x (z.vm.handles.keys.filter (·.1 ∉ own))

def Undone (intrude : MethodAddress → Act σ RuntimeError Unit) (m : MethodAddress) (w x : World σ) : Prop :=
  Leaves w x w.vm.handles.keys ∨ Around intrude m w x

namespace Undone

theorem orderly (undone : Undone intrude m w x) (tame : Tame intrude) (orderly : w.vm.handles.Orderly) :
    x.vm.handles.Orderly := by
  rcases undone with leaves | ⟨_, y, _, _, before, ran, leaves⟩
  · exact leaves.served.vm.orderly orderly
  · exact leaves.served.vm.orderly ((tame m y (before.orderly orderly)).result ran)

theorem keys (undone : Undone intrude m w x) (orderly : w.vm.handles.Orderly)
    (even : ∀ y r z, (intrude m).run y = .ok (r, z) → z.vm.handles.keys = y.vm.handles.keys) :
    x.vm.handles.keys = w.vm.handles.keys := by
  rcases undone with leaves | ⟨_, _, _, _, before, ran, leaves⟩
  · exact leaves.keys
  · rw [leaves.keys, even _ _ _ ran, before.leaves.keys]
    exact HandleTable.filterOwn _ before.fresh orderly

end Undone

end Install

def InstallError.Unfit : InstallError → Prop
  | .unresolvable .. | .abstractMethod _ | .invalidShorty _ => True
  | _ => False

theorem Descriptor.shortyUnfit {d : Descriptor} {e : InstallError} (wrong : d.shorty = .error e) : e.Unfit := by
  unfold shorty at wrong
  split at wrong
  next => cases wrong; trivial
  next =>
    split at wrong
    next => cases wrong; trivial
    next => contradiction

namespace Install

theorem eligibleUnfit (m : MethodAddress) (w : World σ) :
    Action.Ends (fun _ => True) (eligible m) w fun r x => x = w ∧ ∀ e, r = .error e → e.Unfit := by
  unfold eligible
  refine Action.endsLiftBind.mpr ((descriptorEnds fun _ => trivial).weaken fun d x ⟨same, _⟩ => ?_)
  subst same
  dsimp only
  split
  next =>
    refine Action.endsLiftBind.mpr ((looksDescribe m x).weaken fun name y same => ⟨same, fun e is => ?_⟩)
    cases is
    trivial
  next =>
    split
    next =>
      refine Action.endsLiftBind.mpr ((looksMethod m x).weaken fun info y same => ⟨same, fun e is => ?_⟩)
      cases is
      trivial
    next c =>
      refine Action.endsBind.mpr (Action.endsOfExcept.mpr ⟨fun shorty _ => ⟨rfl, by simp⟩, fun e wrong => ?_⟩)
      refine ⟨rfl, fun d' is => ?_⟩
      cases is
      exact Descriptor.shortyUnfit wrong

theorem pinPayloadHolds (payload : Option Ref) (w : World σ) :
    Step.Ends (fun _ => True) (payload.mapM fun p => createGlobal (some p)) w fun pinned x =>
      Holds w pinned.toList x := by
  cases payload with
  | none => exact .refl w
  | some r =>
    refine Step.endsMap.mpr ((createGlobalEnds fun _ _ _ => trivial).weaken fun h x ⟨new, same, _⟩ => ?_)
    subst new same
    exact (Holds.refl w).pin (some r)

theorem checkHolds (m : MethodAddress) (payload : Option Ref) (orderly : w.vm.handles.Orderly) :
    Action.Ends (fun _ => True) (check m payload) w fun r x =>
      (∀ k, r = .ok k → k.method = m ∧ Holds w k.payload.toList x) ∧
        ∀ e, r = .error e → Holds w [] x ∧ (e.Unfit ∧ x = w ∨ ∃ f, e = .runtime f) := by
  unfold check
  refine Action.endsBind.mpr ((eligibleUnfit m w).weaken fun r x ⟨same, unfit⟩ => ?_)
  subst same
  refine ⟨fun (c, shorty) _ => ?_, fun e wrong => ⟨by simp, fun e is => ?_⟩⟩
  swap
  · cases is
    exact ⟨.refl x, Or.inl ⟨unfit e wrong, rfl⟩⟩
  refine Action.endsLiftBind.mpr ((pinPayloadHolds payload x).weaken fun pinned y holds => ?_)
  refine Action.endsGetBind.mpr ?_
  refine Action.endsLiftBind.mpr ((descriptorEnds fun _ => trivial).weaken fun d z ⟨same, _⟩ => ?_)
  subst same
  dsimp only
  split
  next =>
    refine Action.endsLiftBind.mpr (Step.Ends.weaken
      (initClassEnds trivial fun _ => trivial) fun r v ⟨calm, next, _⟩ => ?_)
    have still := holds.calm calm next
    cases r with
    | ok =>
      refine ⟨fun k is => ?_, by simp⟩
      cases is
      exact ⟨rfl, still⟩
    | error e =>
      refine Action.endsLiftBind.mpr ((still.release orderly).weaken fun _ u gone => ⟨by simp, fun e is => ?_⟩)
      cases is
      exact ⟨gone, Or.inr ⟨_, rfl⟩⟩
  next =>
    refine ⟨fun k is => ?_, by simp⟩
    cases is
    exact ⟨rfl, holds⟩

theorem reflectHolds (intrude : MethodAddress → Act σ RuntimeError Unit) (m : MethodAddress) (w : World σ) :
    Action.Ends (fun _ => True) (reflect intrude m) w fun r x =>
      (∃ e, r = .error e) ∧ Holds w [] x ∨
        ∃ y q z, Holds w [] y ∧ (intrude m).run y = .ok (q, z) ∧ Holds z [] x := by
  unfold reflect
  refine Action.endsBind.mpr ((serveEnds .reflect).weaken fun r x ⟨same, _⟩ => ?_)
  have before : Holds w [] x := (Holds.refl w).disturbs same
  refine ⟨fun _ _ => ?_, fun e _ => Or.inl ⟨⟨e, rfl⟩, before⟩⟩
  have ran : Action.Ends (fun _ => True) (intrude m) x fun q z => (intrude m).run x = .ok (q, z) ∧ True :=
    Step.Ends.ran Step.endsAny
  refine Action.endsBind.mpr (ran.weaken fun q z ⟨ran, _⟩ => ?_)
  refine ⟨fun _ _ => ?_, fun _ _ => Or.inr ⟨x, q, z, before, ran, .refl z⟩⟩
  refine Action.endsLift.mpr (vmStepEnds.mpr ((Vm.allocateEnds trivial _).weaken fun _ vm made => ?_))
  exact Or.inr ⟨x, q, z, before, ran, (Holds.refl z).calm (.ofVm made.calm) made.next⟩

theorem captureHolds {k : Candidate} (i : Interceptor) (holds : Holds w k.payload.toList x)
    (orderly : w.vm.handles.Orderly) :
    Action.Ends (fun _ => True) (capture intrude i k) x fun r v =>
      (∀ c, r = .ok c → c.candidate = k ∧ ∃ y q z, Holds w k.payload.toList y ∧
        (intrude k.method).run y = .ok (q, z) ∧ Holds z [c.reflected] v) ∧
        ∀ e, r = .error e → Undone intrude k.method w v ∧ ∃ f, e = .runtime f := by
  unfold capture
  refine Action.endsLiftBind.mpr ((descriptorEnds fun _ => trivial).weaken fun d x ⟨same, _⟩ => ?_)
  subst same
  refine Action.endsLiftBind.mpr (Step.endsOfExcept.mpr ⟨fun s _ => ?_, fun _ _ => trivial⟩)
  cases s with
  | error e =>
    refine Action.endsLiftBind.mpr ((holds.release orderly).weaken fun _ v gone => ⟨by simp, fun e is => ?_⟩)
    cases is
    exact ⟨Or.inl gone.leaves, _, rfl⟩
  | ok s =>
    refine Action.endsLiftBind.mpr (Step.Ends.weaken (reflectHolds intrude k.method x) fun r v reflects => ?_)
    cases r with
    | error e =>
      rcases reflects with ⟨_, before⟩ | ⟨y, q, z, before, ran, after⟩
      · refine Action.endsLiftBind.mpr (((holds.trans before).release orderly).weaken
          fun _ v gone => ⟨by simp, fun e is => ?_⟩)
        cases is
        exact ⟨Or.inl gone.leaves, _, rfl⟩
      · refine Action.endsLiftBind.mpr ((releaseLeaves k.payload.toList v).weaken
          fun _ v gone => ⟨by simp, fun e is => ?_⟩)
        cases is
        exact ⟨Or.inr ⟨_, y, q, z, holds.trans before, ran, after.leave gone⟩, _, rfl⟩
    | ok ref =>
      rcases reflects with ⟨⟨_, impossible⟩, _⟩ | ⟨y, q, z, before, ran, after⟩
      · contradiction
      · refine Action.endsLiftBind.mpr ((createGlobalEnds fun _ _ _ => trivial).weaken
          fun h u ⟨new, same, _⟩ => ⟨fun c is => ?_, by simp⟩)
        subst new same
        cases is
        exact ⟨rfl, y, q, z, holds.trans before, ran, after.pin (some ref)⟩

theorem patchHolds {c : Captured} (i : Interceptor) (holds : Holds z [c.reflected] x)
    (orderly : z.vm.handles.Orderly) :
    Action.Ends (fun _ => True) (patch i c) x fun r v =>
      (∃ id, r = .ok id) ∧ v.vm.handles = x.vm.handles ∨
        Leaves z v (z.vm.handles.keys.filter (·.1 ∉ c.candidate.payload.toList)) ∧
          ∀ e, r = .error e → v.recordOf c.candidate.method = none ∧ ∃ s, e = .installRace s := by
  unfold patch
  refine Action.endsLiftBind.mpr ((descriptorEnds fun _ => trivial).weaken fun d x ⟨same, _⟩ => ?_)
  subst same
  refine Action.endsGetBind.mpr ?_
  dsimp only
  split
  next =>
    refine Or.inl ⟨⟨_, rfl⟩, ?_⟩
    dsimp only [publish]
    cases c.candidate.method <;> rfl
  next =>
    refine Action.endsLiftBind.mpr ((releaseHandleEnds fun _ => trivial).weaken fun _ y same => ?_)
    subst same
    refine Action.endsLiftBind.mpr ((releaseLeaves _ _).weaken fun _ y gone => ?_)
    refine Action.endsGetBind.mpr ?_
    have leaves := (holds.unpin orderly).leave gone
    split
    next => exact Or.inr ⟨leaves, by simp⟩
    next none_ =>
      refine Action.endsLiftBind.mpr ((looksDescribe _ y).weaken fun s v same => ?_)
      subst same
      refine Or.inr ⟨leaves, fun e is => ?_⟩
      cases is
      exact ⟨none_, s, rfl⟩

end Install

structure FailedInstall (intrude : MethodAddress → Act σ RuntimeError Unit) (m : MethodAddress)
    (e : InstallError) (w x : World σ) : Prop where
  unhooked : w.recordOf m = none
  undone : Install.Undone intrude m w x
  unfit : e.Unfit → x = w
  race : ∀ s, e = .installRace s → Install.Around intrude m w x ∧ x.recordOf m = none

theorem installFailed {intrude : MethodAddress → Act σ RuntimeError Unit} (tame : Install.Tame intrude)
    (i : Interceptor) (m : MethodAddress) (payload : Option Ref) (orderly : w.vm.handles.Orderly) :
    Action.Ends (fun _ => True) (install intrude i m payload) w fun r x =>
      x.vm.handles.Orderly ∧ ∀ e, r = .error e → FailedInstall intrude m e w x := by
  unfold install
  refine Action.endsGetBind.mpr ?_
  split
  next => exact ⟨orderly, by simp⟩
  next unhooked =>
    refine Action.endsBind.mpr ((Install.checkHolds m payload orderly).weaken fun r x ⟨ok, failed⟩ => ?_)
    refine ⟨fun k is => ?_, fun e wrong => ?_⟩
    swap
    · obtain ⟨gone, why⟩ := failed e wrong
      refine ⟨gone.orderly orderly, fun e' is => ?_⟩
      cases is
      rcases why with ⟨unfit, rfl⟩ | ⟨f, rfl⟩
      · exact ⟨unhooked, Or.inl gone.leaves, fun _ => rfl, fun s is => absurd unfit (is ▸ id)⟩
      · exact ⟨unhooked, Or.inl gone.leaves, fun unfit => unfit.elim, by simp⟩
    obtain ⟨rfl, holds⟩ := ok k is
    refine Action.endsBind.mpr ((Install.captureHolds i holds orderly).weaken fun r v ⟨ok, failed⟩ => ?_)
    refine ⟨fun c is => ?_, fun e wrong => ?_⟩
    swap
    · obtain ⟨undone, f, rfl⟩ := failed e wrong
      refine ⟨undone.orderly tame orderly, fun e' is => ?_⟩
      cases is
      exact ⟨unhooked, undone, fun unfit => unfit.elim, by simp⟩
    obtain ⟨rfl, y, q, z, before, ran, after⟩ := ok c is
    have later : z.vm.handles.Orderly := (tame _ y (before.orderly orderly)).result ran
    refine (Install.patchHolds i after later).weaken fun r u outcome => ?_
    rcases outcome with ⟨⟨id, rfl⟩, same⟩ | ⟨leaves, failed⟩
    · exact ⟨same ▸ after.orderly later, by simp⟩
    · refine ⟨leaves.served.vm.orderly later, fun e is => ?_⟩
      obtain ⟨none_, s, rfl⟩ := failed e is
      have around : Install.Around intrude _ w u := ⟨_, y, q, z, before, ran, leaves⟩
      exact ⟨unhooked, Or.inr around, fun unfit => unfit.elim, fun _ _ => ⟨around, none_⟩⟩

theorem installTame {intrude : MethodAddress → Act σ RuntimeError Unit} (tame : Install.Tame intrude)
    (t : MethodAddress → Transaction) (payload : Option Ref) :
    Install.Tame fun m => (fun _ => ()) <$> lift ((t m).install intrude m payload) := by
  intro m y orderly
  refine Action.endsMap.mpr (Action.endsLift.mpr (Step.endsBind.mpr ?_))
  refine (installFailed tame (t m).interceptor m payload orderly).weaken fun r x ⟨orderly, _⟩ => ?_
  cases r <;> exact orderly

theorem Transaction.installFailed {intrude : MethodAddress → Act σ RuntimeError Unit}
    (tame : Install.Tame intrude) (orderly : w.vm.handles.Orderly) {t t' : Transaction} {m : MethodAddress}
    {payload : Option Ref} {e : InstallError} (run : (t.install intrude m payload).run w = .ok ((.error e, t'), x)) :
    t' = t ∧ FailedInstall intrude m e w x := by
  have ends : Step.Ends (fun _ => True) (t.install intrude m payload) w fun r x =>
      ∀ e, r.1 = .error e → r.2 = t ∧ FailedInstall intrude m e w x := by
    unfold install
    refine Step.endsBind.mpr ((Detour.installFailed tame t.interceptor m payload orderly).weaken
      fun r x ⟨_, failed⟩ => ?_)
    cases r with
    | ok => exact fun e is => nomatch is
    | error e => exact fun e is => ⟨rfl, failed e is⟩
  exact ends.result run e rfl

theorem failedInstallUndone (intrude : MethodAddress → Act σ RuntimeError Unit) (tame : Install.Tame intrude)
    (w : World σ) (orderly : w.vm.handles.Orderly) (t : Transaction) :
    (∀ m payload e t' x, (t.install intrude m payload).run w = .ok ((.error e, t'), x) →
      t' = t ∧ FailedInstall intrude m e w x) ∧
    ∀ c name signature payload e t' x,
      (t.installNamed intrude c name signature payload).run w = .ok ((.error e, t'), x) →
      t' = t ∧
        ((∃ index, w.vm.resolve c name signature = some index ∧ FailedInstall intrude (.live index) e w x) ∨
          w.vm.resolve c name signature = none ∧
            e = .unresolvable (w.vm.classes.name c) name signature ∧ x = w) := by
  refine ⟨fun m payload e t' x run => Transaction.installFailed tame orderly run, ?_⟩
  intro c name signature payload e t' x run
  unfold Transaction.installNamed at run
  rw [StateT.run, Step.getBindRun] at run
  cases found : w.vm.resolve c name signature with
  | none =>
    rw [found] at run
    cases run
    exact ⟨rfl, Or.inr ⟨rfl, rfl, rfl⟩⟩
  | some index =>
    rw [found] at run
    obtain ⟨same, failed⟩ := Transaction.installFailed tame orderly run
    exact ⟨same, Or.inl ⟨index, rfl, failed⟩⟩

namespace Sample

def meddling : MethodAddress → Act Unit RuntimeError Unit := fun m => do
  let d ← lift (descriptor m)
  lift (setDescriptor m { d with nativeData := .word 1 })

theorem meddlingTame : Install.Tame meddling := by
  intro m y orderly
  refine Action.endsLiftBind.mpr ((descriptorEnds fun _ => trivial).weaken fun d x ⟨same, _⟩ => ?_)
  subst same
  cases m <;> exact orderly

theorem readyOrderly : ready.vm.handles.Orderly := fun _ mem => nomatch mem

def meddled : World Unit := mirrored.withDescriptor (.live 0) { pick.descriptor with nativeData := .word 1 }

theorem meddlingCaptures : (Install.capture meddling host chosen).run held = .ok (.ok seized, meddled) := rfl

theorem meddlingLoses : (Transaction.begin host).install meddling (.live 0) (some first) ready =
    .ok ((.error (.installRace "java.lang.Object.pick"), .begin host),
      (meddled.unpinned ⟨2⟩).unpinned ⟨1⟩) := by
  have run : (install meddling host (.live 0) (some first)).run ready =
      .ok (.error (.installRace "java.lang.Object.pick"), (meddled.unpinned ⟨2⟩).unpinned ⟨1⟩) := by
    change (Install.check (.live 0) (some first) >>= _ : Act Unit InstallError Nat).run ready = _
    rw [Action.bindRun checks, Action.bindRun meddlingCaptures]
    rfl
  exact Step.bindRun run

end Sample

theorem sampleInstallUndone :
    Sample.ready.vm.handles.Orderly ∧
      ∃ x, (Transaction.begin Sample.host).install Sample.meddling (.live 0) (some Sample.first) Sample.ready =
          .ok ((.error (.installRace "java.lang.Object.pick"), .begin Sample.host), x) ∧
        FailedInstall Sample.meddling (.live 0) (.installRace "java.lang.Object.pick") Sample.ready x := by
  have run := Sample.meddlingLoses
  refine ⟨Sample.readyOrderly, _, run, ?_⟩
  exact ((failedInstallUndone Sample.meddling Sample.meddlingTame Sample.ready Sample.readyOrderly
    (.begin Sample.host)).1 (.live 0) (some Sample.first) _ _ _ run).2

end Detour
