import Detour.Proofs.Hook.Lawful

/-! Installs keep to the rules as long as the code that runs while they are suspended does. What an install
knows of the method when it claims the descriptor is carried from piece to piece. -/
namespace Detour

open World

variable {σ : Type} {p : Rights σ} {n : Nat} {w₀ w x y : World σ}

def Pinned (w : World σ) (payload : Option Ref) (pinned : Option Handle) (x : World σ) : Prop :=
  match payload, pinned with
  | none, none => True
  | some r, some h => Fresh w h x ∧ ∃ k, w.vm.heap.Denotes (some r) k ∧ x.vm.Held h k
  | _, _ => False

namespace Pinned

variable {payload : Option Ref} {pinned : Option Handle}

theorem calm (pins : Pinned w payload pinned x) (calm : Calm x y) : Pinned w payload pinned y := by
  cases payload with
  | none => cases pinned <;> exact pins
  | some r =>
    cases pinned with
    | none => exact pins
    | some h =>
      obtain ⟨fresh, k, denotes, held⟩ := pins
      exact ⟨fresh.after calm, k, denotes, Vm.Calm.holds calm.vm held⟩

theorem fresh (pins : Pinned w payload pinned x) : ∀ h ∈ pinned.toList, Fresh w h x := by
  cases pinned with
  | none => simp
  | some h =>
    cases payload with
    | none => exact pins.elim
    | some r => simpa using pins.1

end Pinned

structure Checked (w : World σ) (m : MethodAddress) (payload : Option Ref) (k : Candidate) (d : Descriptor)
    (x : World σ) : Prop where
  method : k.method = m
  found : w.descriptor? m = some d
  concrete : d.isAbstract = false
  shorty : d.shorty = .ok k.shorty
  declared : ∃ c, d.declaringClass = some c ∧
    (d.isStatic = true → x.vm.classes.isInitialized c = true)
  pinned : Pinned w payload k.payload x

namespace Install

theorem eligibleEnds {m : MethodAddress} (w : World σ) :
    Action.Ends (fun _ => True) (eligible m) w fun r x =>
      x = w ∧ ∀ c shorty, r = .ok (c, shorty) → ∃ d, w.descriptor? m = some d ∧
        d.isAbstract = false ∧ d.declaringClass = some c ∧ d.shorty = .ok shorty := by
  unfold eligible
  refine Action.endsLiftBind.mpr ((descriptorEnds fun _ => trivial).weaken fun d x ⟨same, found⟩ => ?_)
  subst same
  dsimp only
  split
  next =>
    refine Action.endsLiftBind.mpr ((looksDescribe m x).weaken fun name y same => ?_)
    simp [same]
  next concrete =>
    split
    next =>
      refine Action.endsLiftBind.mpr ((looksMethod m x).weaken fun info y same => ?_)
      simp [same]
    next c declared =>
      refine Action.endsBind.mpr (Action.endsOfExcept.mpr ⟨fun shorty known => ?_, by simp⟩)
      refine ⟨rfl, fun c' shorty' same => ?_⟩
      cases same
      exact ⟨d, found, by simpa using concrete, declared, known⟩

theorem pinPayloadEnds (payload : Option Ref) (w : World σ) :
    Step.Ends (fun _ => True) (payload.mapM fun p => createGlobal (some p)) w fun pinned x =>
      Calm w x ∧ Pinned w payload pinned x := by
  cases payload with
  | none => exact ⟨.refl w, trivial⟩
  | some r =>
    refine Step.endsMap.mpr ((createGlobalEnds fun _ _ _ => trivial).weaken
      fun h x ⟨new, same, k, denotes⟩ => ?_)
    subst new same
    exact ⟨pinnedCalm _ _, Fresh.pinned _ _ _, k, denotes, pinnedHeld denotes⟩

theorem checkEnds (m : MethodAddress) (payload : Option Ref) (w : World σ) :
    Action.Ends (fun _ => True) (check m payload) w fun r x =>
      Tidy w x ∧ ∀ k, r = .ok k → ∃ d, Checked w m payload k d x := by
  unfold check
  refine Action.endsBind.mpr ((eligibleEnds w).weaken fun r x ⟨same, known⟩ => ?_)
  subst same
  refine ⟨fun (c, shorty) ok => ?_, fun e _ => ⟨.refl x, by simp⟩⟩
  obtain ⟨d, found, concrete, declared, spelled⟩ := known c shorty ok
  refine Action.endsLiftBind.mpr ((pinPayloadEnds payload x).weaken fun pinned y ⟨calm, pins⟩ => ?_)
  refine Action.endsGetBind.mpr ?_
  refine Action.endsLiftBind.mpr ((descriptorEnds fun _ => trivial).weaken fun d' z ⟨same, again⟩ => ?_)
  subst same
  cases (calm.descriptor m ▸ found).symm.trans again
  have checked (v : World σ) (more : Calm z v)
      (done : d.isStatic = true → v.vm.classes.isInitialized c = true) :
      Checked x m payload ⟨m, shorty, pinned⟩ d v :=
    ⟨rfl, found, concrete, spelled, ⟨c, declared, done⟩, pins.calm more⟩
  dsimp only
  split
  next =>
    refine Action.endsLiftBind.mpr (Step.Ends.weaken
      (initClassEnds trivial fun _ => trivial) fun r v ⟨more, _, done⟩ => ?_)
    have tidy : Tidy x v := Calm.served (calm.trans more)
    cases r with
    | ok =>
      refine ⟨tidy, fun k same => ?_⟩
      cases same
      exact ⟨d, checked v more fun _ => done rfl⟩
    | error e =>
      refine Action.endsLiftBind.mpr ((releaseAllServed fun h mem => (pins.fresh h mem).1).weaken
        fun _ u released => ?_)
      exact ⟨Served.trans tidy (released.widen (fun _ new => new) fun _ _ => trivial), by simp⟩
  next ready =>
    refine ⟨calm.served, fun k same => ?_⟩
    cases same
    exact ⟨d, checked z (.refl z) fun static => by simpa [static] using ready⟩

def Lawful (p : Rights σ) (intrude : MethodAddress → Act σ RuntimeError Unit) : Prop :=
  ∀ m, Respects p (intrude m)

variable {intrude : MethodAddress → Act σ RuntimeError Unit} {i : Interceptor}

theorem reflectEnds (lawful : Lawful p intrude) (within : Within p n w₀ w) (m : MethodAddress) :
    Action.Ends (fun _ => True) (reflect intrude m) w fun r x =>
      Within p n w₀ x ∧ ∀ ref, r = .ok ref → ∃ k, x.vm.heap.Denotes (some ref) (some k) ∧
        x.vm.heap.Shows k (.plain (.reflected m)) := by
  unfold reflect
  refine Action.endsBind.mpr ((serveWithin within .reflect).weaken fun _ x within => ?_)
  refine ⟨fun _ _ => ?_, fun _ _ => ⟨within, by simp⟩⟩
  refine Action.endsBind.mpr ((within.respects (lawful m)).weaken fun _ y within => ?_)
  refine ⟨fun _ _ => ?_, fun _ _ => ⟨within, by simp⟩⟩
  refine Action.endsLift.mpr (vmStepEnds.mpr ((Vm.allocateEnds trivial _).weaken fun r vm made => ?_))
  refine ⟨within.calm (.ofVm made.calm), fun ref same => ?_⟩
  cases same
  exact ⟨_, made.denotes, .plain made.object (by simp)⟩

structure Seized (p : Rights σ) (i : Interceptor) (k : Candidate) (w : World σ) (c : Captured)
    (x : World σ) : Prop where
  candidate : c.candidate = k
  copied : ∃ d, w.descriptor? k.method = some d ∧
    Snapshot.capture i.layout i.settings.snapshotSlack d = .ok (.ok c.snapshot)
  reflected : ∃ o, x.vm.Held c.reflected (some o) ∧
    x.vm.heap.Shows o (.plain (.reflected k.method))
  meanwhile : Leads p w.vm.handles.next w x

theorem captureEnds (lawful : Lawful p intrude) (within : Within p n w₀ w) (k : Candidate)
    (own : ∀ h ∈ k.payload.toList, Own n w h) :
    Action.Ends (fun _ => True) (capture intrude i k) w fun r x =>
      Within p n w₀ x ∧ ∀ c, r = .ok c → Own n x c.reflected ∧ Seized p i k w c x := by
  unfold capture
  refine Action.endsLiftBind.mpr ((descriptorEnds fun _ => trivial).weaken fun d x ⟨same, found⟩ => ?_)
  subst same
  have releases (e : RuntimeError) (v : World σ) (within : Within p n w₀ v)
      (own : ∀ h ∈ k.payload.toList, Own n v h) :
      Action.Ends (fun _ => True) (do
        lift (releasePayload k.payload)
        throw (.runtime e) : Act σ InstallError Captured) v fun r y =>
          Within p n w₀ y ∧ ∀ c, r = .ok c → Own n y c.reflected ∧ Seized p i k x c y := by
    refine Action.endsLiftBind.mpr ((releaseAllServed fun h mem => mem).weaken fun _ y released => ?_)
    exact ⟨within.served released own, by simp⟩
  refine Action.endsLiftBind.mpr (Step.endsOfExcept.mpr ⟨fun s copied => ?_, fun _ _ => trivial⟩)
  cases s with
  | error e => exact releases e x within own
  | ok s =>
    have reflects := (reflectEnds lawful within k.method).both (reflectEnds lawful (.start within.still) k.method)
    refine Action.endsLiftBind.mpr (Step.Ends.weaken reflects fun r y ⟨⟨within, _⟩, meanwhile, made⟩ => ?_)
    cases r with
    | error e => exact releases e y within fun h mem => (own h mem).leads meanwhile.leads
    | ok ref =>
      obtain ⟨o, denotes, shows_⟩ := made ref rfl
      refine Action.endsLiftBind.mpr ((createGlobalEnds fun _ _ _ => trivial).weaken
        fun h z ⟨new, same, _⟩ => ?_)
      subst new same
      refine ⟨within.calm (pinnedCalm _ _), fun c same => ?_⟩
      cases same
      refine ⟨within.own (Fresh.pinned _ _ _) rfl, ?_⟩
      exact {
        candidate := rfl
        copied := ⟨d, found, copied⟩
        reflected := ⟨o, pinnedHeld denotes, shows_⟩
        meanwhile := (meanwhile.calm (pinnedCalm _ _)).leads }

theorem patchSplits (i : Interceptor) (c : Captured) (w : World σ) :
    Action.Ends (fun _ => True) (patch i c) w fun r x =>
      (∃ d patched, w.descriptor? c.candidate.method = some d ∧
        d.patch? i.settings.patchStyle c.snapshot.descriptor.nativeData w.records.length = some patched ∧
        r = .ok w.records.length ∧ x = w.claimed c.candidate.method patched (c.record i d)) ∨
      Served (· ∈ c.reflected :: c.candidate.payload.toList) (fun _ => True) w x ∧
        ∀ id, r = .ok id → x.recordOf c.candidate.method = some id := by
  unfold patch
  refine Action.endsLiftBind.mpr ((descriptorEnds fun _ => trivial).weaken fun d x ⟨same, found⟩ => ?_)
  subst same
  refine Action.endsGetBind.mpr ?_
  dsimp only
  split
  next patched won => exact Or.inl ⟨d, patched, found, won, rfl, rfl⟩
  next =>
    refine Action.endsLiftBind.mpr ((releaseHandleEnds fun _ => trivial).weaken fun _ y same => ?_)
    subst same
    have first : Served (· ∈ c.reflected :: c.candidate.payload.toList) (fun _ => True) x
        (x.unpinned c.reflected) := .step (.released (by simp))
    have releases := releaseAllServed (w := x.unpinned c.reflected)
      fun h (mem : h ∈ c.candidate.payload.toList) => List.mem_cons_of_mem c.reflected mem
    refine Action.endsLiftBind.mpr (releases.weaken fun _ y released => ?_)
    have served := first.trans released
    refine Action.endsGetBind.mpr ?_
    split
    next existing known =>
      refine Or.inr ⟨served, fun id same => ?_⟩
      cases same
      exact known
    next =>
      refine Action.endsLiftBind.mpr ((looksDescribe _ y).weaken fun _ z same => ?_)
      subst same
      exact Or.inr ⟨served, by simp⟩

theorem patchEnds {index : Nat} {c : Captured} (method : c.candidate.method = .live index) :
    Action.Ends (fun _ => True) (patch i c) w fun r x =>
      (∃ d patched, c.Wins i index d patched w ∧ r = .ok w.records.length ∧
        x = w.claimed (.live index) patched (c.record i d)) ∨
      Served (· ∈ c.reflected :: c.candidate.payload.toList) (fun _ => True) w x ∧
        ∀ id, r = .ok id → x.recordOf (.live index) = some id := by
  have splits := patchSplits i c w
  rw [method] at splits
  exact splits.weaken fun _ _ => .imp_left fun ⟨d, patched, found, won, rest⟩ => ⟨d, patched, ⟨found, won⟩, rest⟩

theorem patchWithin {index : Nat} {c : Captured} {d : Descriptor} (within : Within p n w₀ w)
    (captured : Captured.From c i index d w) (meanwhile : Leads p n w x)
    (own : ∀ h ∈ c.reflected :: c.candidate.payload.toList, Own n x h) :
    Action.Ends (fun _ => True) (patch i c) x fun _ y => Within p n w₀ y := by
  refine (patchEnds captured.method).weaken fun r y outcome => ?_
  rcases outcome with ⟨d', patched, wins, _, rfl⟩ | ⟨served, _⟩
  · exact ⟨within.since, within.ready, within.leads.claims captured meanwhile wins fun h mem =>
      ⟨(own h mem).since, (own h mem).issued⟩⟩
  · exact (within.further (Nat.le_refl _) meanwhile).served served own

theorem Seized.captured {index : Nat} {payload : Option Ref} {k : Candidate} {c : Captured} {d : Descriptor}
    {u : World σ} (seized : Seized p i k x c u) (checked : Checked w (.live index) payload k d x)
    (tidy : Tidy w x) (fits : i.layout = w.vm.layout) (free : w.recordOf (.live index) = none) :
    Captured.From c i index d x := by
  obtain ⟨d', again, copied⟩ := seized.copied
  have found : x.descriptor? (.live index) = some d := (tidy.descriptor _).trans checked.found
  cases found.symm.trans (checked.method ▸ again)
  exact {
    method := by rw [seized.candidate, checked.method]
    layout := fits.trans tidy.layout.symm
    found
    unhooked := by simpa [World.recordOf, checked.found] using free
    concrete := checked.concrete
    shorty := by rw [seized.candidate]; exact checked.shorty
    declared := checked.declared
    copied }

theorem Seized.own {k : Candidate} {c : Captured} {u : World σ} (seized : Seized p i k x c u)
    (reflected : Own n u c.reflected) (payload : ∀ h ∈ k.payload.toList, Own n x h) :
    ∀ h ∈ c.reflected :: c.candidate.payload.toList, Own n u h := by
  intro h mem
  rcases List.mem_cons.mp mem with rfl | mem
  · exact reflected
  · rw [seized.candidate] at mem
    exact (payload h mem).leads seized.meanwhile

end Install

theorem installRespects {intrude : MethodAddress → Act σ RuntimeError Unit} {i : Interceptor}
    (lawful : Install.Lawful p intrude) (index : Nat) (payload : Option Ref) (w : World σ)
    (ready : Ready p w) (fits : i.layout = w.vm.layout) :
    Action.Ends (fun _ => True) (install intrude i (.live index) payload) w fun _ x =>
      Leads p w.vm.handles.next w x := by
  unfold install
  refine Action.endsGetBind.mpr ?_
  split
  next => exact .refl w
  next free =>
    have start : Within p w.vm.handles.next w w := .start ready
    refine Action.endsBind.mpr ((Install.checkEnds (.live index) payload w).weaken fun r x ⟨tidy, checks⟩ => ?_)
    have within := start.tidy tidy
    refine ⟨fun k ok => ?_, fun _ _ => within.leads⟩
    obtain ⟨d, checked⟩ := checks k ok
    have own : ∀ h ∈ k.payload.toList, Own w.vm.handles.next x h :=
      fun h mem => start.own (checked.pinned.fresh h mem) tidy.records
    refine Action.endsBind.mpr ((Install.captureEnds lawful within k own).weaken fun r y ⟨later, seizes⟩ => ?_)
    refine ⟨fun c ok => ?_, fun _ _ => later.leads⟩
    obtain ⟨reflected, seized⟩ := seizes c ok
    have captured := seized.captured checked tidy fits free
    have all := seized.own reflected own
    exact (Install.patchWithin within captured (seized.meanwhile.widen within.next) all).weaken
      fun _ _ within => within.leads

end Detour
