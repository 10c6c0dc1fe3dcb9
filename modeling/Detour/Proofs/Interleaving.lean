import Detour.Proofs.MovingObjects

/-! Two installs of one method, one of them held up while the other hooks the method. The claim decides
between them as long as the descriptor is captured before the method is hooked. An install held up earlier,
between its check and its capture, hooks the method once more. -/
namespace Detour

open World

variable {σ : Type} {p : Rights σ} {n : Nat} {w x u v : World σ}

namespace Install

variable {intrude : MethodAddress → Act σ RuntimeError Unit} {i : Interceptor} {index id : Nat}
  {payload : Option Ref} {k : Candidate}

structure HeldUp (p : Rights σ) (m : MethodAddress) (payload : Option Ref) (k : Candidate) (w v : World σ) :
    Prop where
  within : Within p w.vm.handles.next w v
  own : ∀ h ∈ k.payload.toList, Own w.vm.handles.next v h
  checked : ∃ d u, Checked w m payload k d u ∧ Tidy w u ∧ Leads p u.vm.handles.next u v

theorem heldUp {m : MethodAddress} (ready : Ready p w) (checks : (check m payload).run w = .ok (.ok k, u))
    (meanwhile : Leads p u.vm.handles.next u v) : HeldUp p m payload k w v := by
  obtain ⟨tidy, known⟩ := Step.Ends.result (checkEnds m payload w) checks
  obtain ⟨d, checked⟩ := known k rfl
  have start : Within p w.vm.handles.next w w := .start ready
  have within := start.tidy tidy
  refine ⟨within.further within.next meanwhile, fun h mem => ?_, d, u, checked, tidy, meanwhile⟩
  exact (start.own (checked.pinned.fresh h mem) tidy.records).leads meanwhile

theorem HeldUp.captured (held : HeldUp p (.live index) payload k w v) (sound : Sound w)
    (fits : i.layout = w.vm.layout) (free : v.recordOf (.live index) = none) {c : Captured}
    (candidate : c.candidate = k) {d : Descriptor} (found : v.descriptor? (.live index) = some d)
    (copied : Snapshot.capture i.layout i.settings.snapshotSlack d = .ok (.ok c.snapshot)) :
    Captured.From c i index d v := by
  obtain ⟨e, u, checked, tidy, meanwhile⟩ := held.checked
  obtain ⟨there, evolved, _⟩ := held.within.leads.straight sound
  have plain : d.isHooked = false := by
    rcases there.states index d found with unhooked | ⟨id, r, hooked⟩
    · exact unhooked.notHooked
    · simp [World.recordOf, found, hooked.recorded] at free
  have same : d = { e with nativeData := d.nativeData } := by
    cases before : e.isHooked with
    | true =>
      cases (evolved.hooked index e checked.found before).symm.trans found
      simp [plain] at before
    | false =>
      obtain ⟨d', again, became⟩ := evolved.unhooked index e checked.found before
      cases again.symm.trans found
      exact became.resolve_left (by simp [plain])
  obtain ⟨cls, declared, done⟩ := checked.declared
  exact {
    method := by rw [candidate, checked.method]
    layout := fits.trans held.within.leads.layout.symm
    found
    unhooked := by simpa [World.recordOf, found] using free
    concrete := by
      rw [same]
      exact checked.concrete
    shorty := by
      rw [same, candidate]
      exact checked.shorty
    declared := ⟨cls, by rw [same]; exact declared, fun static => meanwhile.initialized cls (done (by
      rw [same] at static
      exact static))⟩
    copied }

theorem patchRun {c : Captured} {d patched : Descriptor} (method : c.candidate.method = .live index)
    (wins : c.Wins i index d patched w) :
    (patch i c).run w = .ok (.ok w.records.length, w.claimed (.live index) patched (c.record i d)) := by
  unfold patch
  rw [method, Action.liftBindRun (descriptorRun wins.found)]
  rw [Action.getBindRun]
  dsimp only
  rw [wins.patch]
  simp only [claimed, Captured.record, method]
  rfl

/-- A method that has two records. The later one took over a hooked method, and its original is the hook. -/
structure HookedTwice (index id new : Nat) (x : World σ) : Prop where
  later : id < new
  records : ∃ r s, x.records[id]? = some r ∧ x.records[new]? = some s ∧ r.method = .live index ∧
    s.method = .live index ∧ s.snapshot.descriptor.entryPoint = .trampoline
  recorded : x.recordOf (.live index) = some new

theorem promptCapture (lawful : Lawful p intrude) (held : HeldUp p (.live index) payload k w v)
    (sound : Sound w) (fits : i.layout = w.vm.layout) (free : v.recordOf (.live index) = none) :
    Action.Ends (fun _ => True) (do let c ← capture intrude i k; patch i c) v fun r x =>
      Sound x ∧ ∀ id, r = .ok id → x.recordOf (.live index) = some id := by
  have method : k.method = .live index := by
    obtain ⟨_, _, checked, _⟩ := held.checked
    exact checked.method
  refine Action.endsBind.mpr ((captureEnds lawful held.within k held.own).weaken fun r x ⟨later, seizes⟩ => ?_)
  refine ⟨fun c is => ?_, fun _ _ => ⟨(later.leads.straight sound).1, by simp⟩⟩
  obtain ⟨reflected, seized⟩ := seizes c is
  obtain ⟨d, found, copied⟩ := seized.copied
  rw [method] at found
  have captured := held.captured sound fits free seized.candidate found copied
  have all := seized.own reflected held.own
  have meanwhile := seized.meanwhile.widen held.within.next
  have ends := (patchEnds captured.method (i := i) (w := x)).both (patchWithin held.within captured meanwhile all)
  refine Step.Ends.weaken ends fun r y ⟨outcome, within⟩ => ⟨(within.leads.straight sound).1, ?_⟩
  rcases outcome with ⟨e, patched, wins, rfl, rfl⟩ | ⟨_, recorded⟩
  · intro id is
    cases is
    obtain ⟨_, rfl⟩ := Descriptor.patchIs.mp wins.patch
    simp [recordOf, claimedLive, wins.found, Descriptor.record?, Descriptor.patched]
  · exact recorded

theorem lateCapture (lawful : Lawful p intrude) (held : HeldUp p (.live index) payload k w v)
    (sound : Sound w) (fits : i.layout = w.vm.layout) (hooked : v.recordOf (.live index) = some id) :
    Action.Ends (fun _ => True) (capture intrude i k) v fun r x => ∀ c, r = .ok c → ∃ y,
      (patch i c).run x = .ok (.ok x.records.length, y) ∧ HookedTwice index id x.records.length y := by
  obtain ⟨_, _, checked, _⟩ := held.checked
  have there := (held.within.leads.straight sound).1
  obtain ⟨d, old, found, hooks⟩ := there.recorded hooked
  refine (captureEnds lawful held.within k held.own).weaken fun r x ⟨later, seizes⟩ c is => ?_
  obtain ⟨_, seized⟩ := seizes c is
  obtain ⟨_, again, copied⟩ := seized.copied
  rw [checked.method, found] at again
  cases again
  have whole : c.snapshot.descriptor = d := by
    refine captureWhole copied ?_
    rw [fits, ← held.within.leads.layout]
    exact there.trailing index d found
  have still := (seized.meanwhile.straight there).2.1.hooked index d found hooks.isHooked
  have method : c.candidate.method = .live index := by rw [seized.candidate, checked.method]
  -- The claim compares native data alone, and that is unchanged since the capture: it is won again.
  have wins : c.Wins i index d (d.patched i.settings.patchStyle x.records.length) x :=
    ⟨still, Descriptor.patchIs.mpr ⟨congrArg Descriptor.nativeData whole.symm, rfl⟩⟩
  have kept := seized.meanwhile.published hooks.found
  have below : id < x.records.length := (List.getElem?_eq_some_iff.mp kept).1
  refine ⟨_, patchRun method wins, below, ⟨old, c.record i d, ?_, ?_, hooks.method, method, ?_⟩, ?_⟩
  · simpa [claimed, publish, withDescriptor, List.getElem?_append_left below] using kept
  · simp [claimed, publish, withDescriptor]
  · exact (congrArg Descriptor.entryPoint whole).trans (by simp [hooks.live, Descriptor.patched])
  · simp [recordOf, claimedLive, still, Descriptor.record?, Descriptor.patched]

end Install

namespace Sample

def other : Interceptor := { host with handler := .plain 1 }
def rival : Candidate := ⟨.live 0, ⟨.reference, [.int, .reference]⟩, none⟩
def rivalCaptured : Captured := ⟨rival, ⟨pick.descriptor, 96⟩, ⟨2⟩⟩
def overtaken : World Unit :=
  mirrored.claimed (.live 0) (pick.descriptor.patched .compiledEntry 0)
    (rivalCaptured.record other pick.descriptor)

theorem rivalInstalls : (install (fun _ => pure ()) other (.live 0) none).run held = .ok (.ok 0, overtaken) := by
  have check : (Install.check (.live 0) none).run held = .ok (.ok rival, held) := by
    unfold Install.check
    rw [Action.bindRun (pickEligible rfl)]
    rfl
  change (Install.check (.live 0) none >>= _ : Act Unit InstallError Nat).run held = _
  rw [Action.bindRun check]
  rfl

end Sample

theorem sampleHookedTwice : ∃ k u v c x y,
    (Install.check (.live 0) (some Sample.first)).run Sample.ready = .ok (.ok k, u) ∧
      (install (fun _ => pure ()) Sample.other (.live 0) none).run u = .ok (.ok 0, v) ∧
      (Install.capture (fun _ => pure ()) Sample.host k).run v = .ok (.ok c, x) ∧
      (Install.patch Sample.host c).run x = .ok (.ok 1, y) ∧ Install.HookedTwice 0 0 1 y := by
  refine ⟨_, _, _, _, _, _, Sample.checks, Sample.rivalInstalls, rfl, rfl, ?_⟩
  exact ⟨by decide, ⟨_, _, rfl, rfl, rfl, rfl, rfl⟩, rfl⟩

end Detour
