import Detour.Proofs.Hook.Along
import Detour.Proofs.HookState

/-! Books of descriptors and records. A record hands out its snapshot as the address of the original, and an
install takes that address as it takes any other; so the books are kept of originals too. What an install
makes of the records is to add one and to amend at most one, that whose original it hooked. -/
namespace Detour

open World

variable {σ : Type} {w v x : World σ} {given : MethodAddress → Prop}

def InstalledHook.rewritten (r : InstalledHook) (d : Descriptor) : InstalledHook :=
  { r with snapshot := { r.snapshot with descriptor := d } }

structure Descriptor.Plain (d : Descriptor) : Prop where
  entry : d.isHooked = false
  word : ∃ word, d.nativeData = .word word

namespace Descriptor

theorem recordIff {d : Descriptor} {id : Nat} :
    d.record? = some id ↔ d.isHooked = true ∧ d.nativeData = .record id := by
  unfold record? isHooked
  cases d.entryPoint <;> cases d.nativeData <;> simp

theorem wordUnrecorded {d : Descriptor} {word : UInt64} (is : d.nativeData = .word word) : d.record? = none := by
  refine Option.eq_none_iff_forall_ne_some.mpr fun id recorded => ?_
  exact nomatch is.symm.trans (recordIff.mp recorded).2

theorem Plain.unrecorded {d : Descriptor} (plain : d.Plain) : d.record? = none :=
  wordUnrecorded plain.word.choose_spec

theorem patchedRecord (d : Descriptor) (style : PatchStyle) (id : Nat) : (d.patched style id).record? = some id :=
  rfl

end Descriptor

/-- Descriptors and records agree, those of originals included: each descriptor is plain, or claimed by a
record of its own method, and each record has claimed its method, which an install was given. -/
structure Booked (given : MethodAddress → Prop) (w : World σ) : Prop where
  states : ∀ m d, w.descriptor? m = some d → d.Plain ∨
    ∃ id r, d.record? = some id ∧ w.records[id]? = some r ∧ r.method = m
  claims : ∀ id r, w.records[id]? = some r → given r.method ∧ w.recordOf r.method = some id

structure Overlaid (w x : World σ) (id k : Nat) (r s : InstalledHook) (d : Descriptor) : Prop where
  plain : r.snapshot.descriptor.isHooked = false
  later : w.records.length ≤ k
  found : x.records[k]? = some s
  method : s.method = .copy id
  patched : d = r.snapshot.descriptor.patched s.interceptor.settings.patchStyle k

def Amends (given : MethodAddress → Prop) (w x : World σ) : Prop :=
  ∀ id r, w.records[id]? = some r → ∃ d, x.records[id]? = some (r.rewritten d) ∧
    (d = r.snapshot.descriptor ∨ given (.copy id) ∧ ∃ k s, Overlaid w x id k r s d)

namespace Amends

theorem same (records : x.records = w.records) : Amends given w x := fun id r found =>
  ⟨r.snapshot.descriptor, by rw [records]; exact found, .inl rfl⟩

theorem grown (amends : Amends given w x) : w.records.length ≤ x.records.length := by
  by_contra fewer
  obtain ⟨r, found⟩ : ∃ r, w.records[x.records.length]? = some r := ⟨_, List.getElem?_eq_getElem (by omega)⟩
  obtain ⟨d, there, _⟩ := amends _ r found
  simp at there

theorem trans (first : Amends given w v) (second : Amends given v x) : Amends given w x := by
  intro id r found
  obtain ⟨d, there, how⟩ := first id r found
  obtain ⟨e, later, again⟩ := second id _ there
  refine ⟨e, later, ?_⟩
  -- The record that hooked the original in the first run may itself be amended in the second.
  rcases how with rfl | ⟨allowed, k, s, overlaid⟩
  · refine again.imp_right fun ⟨allowed, k, s, overlaid⟩ => ⟨allowed, k, s, ?_⟩
    exact { overlaid with later := Nat.le_trans first.grown overlaid.later }
  · rcases again with same | ⟨_, _, _, twice⟩
    · obtain ⟨f, kept, _⟩ := second k s overlaid.found
      exact .inr ⟨allowed, k, s.rewritten f, overlaid.plain, overlaid.later, kept, overlaid.method,
        same.trans overlaid.patched⟩
    · have record : d.record? = some k := overlaid.patched ▸ Descriptor.patchedRecord _ _ _
      exact nomatch twice.plain.symm.trans (Descriptor.recordIff.mp record).1

end Amends

namespace World

variable {m a : MethodAddress} {d e : Descriptor} {r s : InstalledHook} {id : Nat}

theorem claimedLast : (w.claimed m e r).records[w.records.length]? = some r := by
  cases m <;> simp [claimed, publish, withDescriptor]

theorem claimedOld (found : w.records[id]? = some s) :
    (w.claimed m e r).records[id]? = some (if m = .copy id then s.rewritten e else s) := by
  have below := (List.getElem?_eq_some_iff.mp found).1
  cases m with
  | live index =>
    change (w.records ++ [r])[id]? = some s
    rw [List.getElem?_append_left below, found]
  | copy k =>
    change (w.records.modify k (·.rewritten e) ++ [r])[id]? = _
    rw [List.getElem?_append_left (by simpa using below), List.getElem?_modify, found]
    by_cases same : k = id <;> simp [same]

theorem claimedFrom (found : (w.claimed m e r).records[id]? = some s) :
    id = w.records.length ∧ s = r ∨ ∃ t, w.records[id]? = some t ∧ s.method = t.method := by
  rcases Nat.lt_trichotomy id w.records.length with below | rfl | above
  · obtain ⟨t, there⟩ : ∃ t, w.records[id]? = some t := ⟨_, List.getElem?_eq_getElem below⟩
    refine .inr ⟨t, there, ?_⟩
    rw [claimedOld there] at found
    split at found <;> cases found <;> rfl
  · exact .inl ⟨rfl, Option.some.inj (found.symm.trans claimedLast)⟩
  · have longer : (w.claimed m e r).records.length = w.records.length + 1 := by
      cases m <;> simp [claimed, publish, withDescriptor]
    rw [List.getElem?_eq_none (by omega)] at found
    contradiction

theorem claimedThere (found : w.descriptor? m = some d) : (w.claimed m e r).descriptor? m = some e := by
  cases m with
  | live index => simp [claimedLive, found]
  | copy id =>
    obtain ⟨s, there, _⟩ := Option.map_eq_some_iff.mp found
    simp [descriptor?, claimedOld there, InstalledHook.rewritten]

theorem claimedNew : (w.claimed m e r).descriptor? (.copy w.records.length) = some r.snapshot.descriptor := by
  simp [descriptor?, claimedLast]

theorem claimedElse (other : a ≠ m) (old : a ≠ .copy w.records.length) :
    (w.claimed m e r).descriptor? a = w.descriptor? a := by
  cases a with
  | live j =>
    cases m with
    | live i => rw [claimedLive, if_neg fun same => other (congrArg _ same.symm)]
    | copy id => rfl
  | copy id =>
    cases there : w.records[id]? with
    | some s => simp [descriptor?, claimedOld there, there, Ne.symm other]
    | none =>
      cases found : (w.claimed m e r).records[id]? with
      | none => simp [descriptor?, there, found]
      | some s =>
        rcases claimedFrom found with ⟨rfl, _⟩ | ⟨t, is, _⟩
        · exact (old rfl).elim
        · simp [there] at is

end World

namespace Booked

theorem unhooked {m : MethodAddress} {d : Descriptor} (booked : Booked given w) (found : w.descriptor? m = some d)
    (free : d.record? = none) : d.Plain :=
  (booked.states m d found).resolve_right fun ⟨_, _, is, _⟩ => nomatch free.symm.trans is

theorem aside (booked : Booked given w) (aside : Aside w x) : Booked given x := by
  constructor
  · intro m d found
    rw [aside.records]
    exact booked.states m d (aside.descriptor m ▸ found)
  · intro id r found
    unfold recordOf
    rw [aside.descriptor]
    exact booked.claims id r (aside.records ▸ found)

theorem claimed {m : MethodAddress} {d : Descriptor} {r : InstalledHook} (booked : Booked given w)
    (allowed : given m) (found : w.descriptor? m = some d) (free : d.Plain) (method : r.method = m)
    (plain : r.snapshot.descriptor.Plain) :
    let e := d.patched r.interceptor.settings.patchStyle w.records.length
    Booked given (w.claimed m e r) ∧ Amends given w (w.claimed m e r) := by
  intro e
  have there : (w.claimed m e r).descriptor? m = some e := claimedThere found
  refine ⟨⟨fun a f is => ?_, fun id s is => ?_⟩, fun id s is => ?_⟩
  · rcases eq_or_ne a m with rfl | other
    · cases is.symm.trans there
      exact .inr ⟨w.records.length, r, rfl, claimedLast, method⟩
    · rcases eq_or_ne a (.copy w.records.length) with rfl | old
      · cases is.symm.trans claimedNew
        exact .inl plain
      · refine (booked.states a f (claimedElse other old ▸ is)).imp_right fun ⟨id, s, record, at_, of_⟩ => ?_
        refine ⟨id, _, record, claimedOld at_, ?_⟩
        split <;> exact of_
  · rcases claimedFrom is with ⟨rfl, rfl⟩ | ⟨t, at_, same⟩
    · rw [method]
      exact ⟨allowed, by rw [recordOf, there]; rfl⟩
    · obtain ⟨allowed, recorded⟩ := booked.claims id t at_
      rw [same]
      refine ⟨allowed, ?_⟩
      have other : t.method ≠ m := by
        intro is
        simp [recordOf, is, found, free.unrecorded] at recorded
      have old : t.method ≠ .copy w.records.length := by
        intro is
        simp [recordOf, is, descriptor?] at recorded
      rw [recordOf, claimedElse other old]
      exact recorded
  · rcases eq_or_ne m (.copy id) with rfl | other
    · have own : s.snapshot.descriptor = d := by simpa [descriptor?, is] using found
      refine ⟨e, by rw [claimedOld is, if_pos rfl], .inr ⟨allowed, w.records.length, r, ?_⟩⟩
      exact ⟨own ▸ free.entry, Nat.le_refl _, claimedLast, method, by rw [own]⟩
    · exact ⟨s.snapshot.descriptor, by rw [claimedOld is, if_neg other]; rfl, .inl rfl⟩

end Booked

def Upholds (given : MethodAddress → Prop) (w x : World σ) : Prop :=
  Booked given w → Booked given x ∧ Amends given w x

structure Besides (v x : World σ) : Prop where
  records : x.records = v.records
  hooked : ∀ index d, v.descriptor? (.live index) = some d → d.isHooked = true →
    x.descriptor? (.live index) = some d
  plain : ∀ index d, x.descriptor? (.live index) = some d → v.descriptor? (.live index) = some d ∨ d.Plain

theorem Booked.besides (booked : Booked given v) (besides : Besides v x) : Booked given x := by
  have copies (id : Nat) : x.descriptor? (.copy id) = v.descriptor? (.copy id) := by
    simp [descriptor?, besides.records]
  constructor
  · intro m d found
    rw [besides.records]
    cases m with
    | live index =>
      rcases besides.plain index d found with before | plain
      · exact booked.states _ d before
      · exact .inl plain
    | copy id => exact booked.states _ d (copies id ▸ found)
  · intro id r found
    obtain ⟨allowed, recorded⟩ := booked.claims id r (besides.records ▸ found)
    refine ⟨allowed, ?_⟩
    cases method : r.method with
    | live index =>
      rw [method] at recorded
      obtain ⟨d, there, record⟩ := Option.bind_eq_some_iff.mp recorded
      rw [recordOf, besides.hooked index d there (Descriptor.recordIff.mp record).1]
      exact record
    | copy k => rw [recordOf, copies, ← method]; exact method ▸ recorded

namespace Upholds

theorem besides (besides : Besides v x) : Upholds given v x := fun booked =>
  ⟨booked.besides besides, .same besides.records⟩

theorem lax : Lax (Upholds (σ := σ) given) where
  trans first second booked := by
    obtain ⟨there, amends⟩ := first booked
    obtain ⟨later, again⟩ := second there
    exact ⟨later, amends.trans again⟩
  aside aside booked := ⟨booked.aside aside, .same aside.records⟩
  counted w index := by
    refine besides ⟨rfl, fun j d found _ => ?_, fun j d found => .inl ?_⟩
    · rw [countedLive, found]
    · rw [← countedLive w index j, found]

theorem errors (w : World σ) (pending : Option CallError) (raised : List CallError) :
    Upholds given w { w with pending, raised } :=
  besides ⟨rfl, fun _ _ found _ => found, fun _ _ found => .inl found⟩

end Upholds
namespace Install

variable {intrude : MethodAddress → Act σ RuntimeError Unit} {i : Interceptor}

theorem captureAlong {R : World σ → World σ → Prop} (lax : Lax R) (meanwhile : ∀ a, Along R (intrude a).run)
    (k : Candidate) : Along R (capture intrude i k).run := by
  have reflects : Along R (reflect intrude k.method).run := by
    refine lax.act (serveAlong lax .reflect) fun _ => lax.act (meanwhile k.method) fun _ w => ?_
    refine Action.endsLift.mpr (vmStepEnds.mpr ((Vm.allocateEnds trivial _).weaken fun r vm made => ?_))
    exact lax.aside (.served (Served.ofVm made.calm))
  have releases (e : RuntimeError) : Along R (do
      lift (releasePayload k.payload)
      throw (.runtime e) : Act σ InstallError Captured).run :=
    lax.lifted (lax.handles (.releaseAll _)) fun _ => lax.throws _
  refine lax.lifted (lax.looks (looksDescriptor _)) fun d => ?_
  refine lax.lifted (lax.looks (Step.looksOfExcept _)) fun s => ?_
  cases s with
  | error e => exact releases e
  | ok s =>
    refine lax.lifted reflects fun r => ?_
    cases r with
    | error e => exact releases e
    | ok r =>
      refine lax.lifted (fun w => ?_) fun h => lax.pure _
      refine (createGlobalEnds fun _ _ _ => trivial).weaken fun h x ⟨_, same, _⟩ => ?_
      subst same
      exact lax.aside (.served (pinnedCalm _ _))

theorem captureCopies (k : Candidate) (w : World σ) :
    Action.Ends (fun _ => True) (capture intrude i k) w fun r _ => ∀ c, r = .ok c → c.candidate = k ∧
      ∃ d bytes, w.descriptor? k.method = some d ∧ c.snapshot.descriptor = { d with trailing := bytes } := by
  have releases (e : RuntimeError) (v : World σ) : Action.Ends (fun _ => True) (do
      lift (releasePayload k.payload)
      throw (.runtime e) : Act σ InstallError Captured) v fun r _ => ∀ c, r = .ok c → c.candidate = k ∧
        ∃ d bytes, w.descriptor? k.method = some d ∧ c.snapshot.descriptor = { d with trailing := bytes } :=
    Action.endsLiftBind.mpr (Step.endsAny.weaken fun _ _ _ => by simp)
  unfold capture
  refine Action.endsLiftBind.mpr ((descriptorEnds fun _ => trivial).weaken fun d x ⟨same, found⟩ => ?_)
  subst same
  refine Action.endsLiftBind.mpr (Step.endsOfExcept.mpr ⟨fun s copied => ?_, fun _ _ => trivial⟩)
  cases s with
  | error e => exact releases e x
  | ok s =>
    refine Action.endsLiftBind.mpr (Step.endsAny.weaken fun r y _ => ?_)
    cases r with
    | error e => exact releases e y
    | ok r =>
      refine Action.endsLiftBind.mpr (Step.endsAny.weaken fun h z _ c same => ?_)
      cases same
      exact ⟨rfl, d, _, found, captureDescriptor copied⟩

end Install

theorem installUpholds {intrude : MethodAddress → Act σ RuntimeError Unit} {m : MethodAddress}
    (allowed : given m) (meanwhile : ∀ a, Along (Upholds given) (intrude a).run) (i : Interceptor)
    (payload : Option Ref) : Along (Upholds given) (install intrude i m payload).run := by
  intro w
  unfold install
  refine Action.endsGetBind.mpr ?_
  split
  next => exact Upholds.lax.aside (.refl w)
  next free =>
    refine Action.endsBind.mpr ((Install.checkEnds m payload w).weaken fun r x ⟨tidy, checks⟩ => ?_)
    have first : Upholds given w x := Upholds.lax.aside (.served tidy)
    refine ⟨fun k ok => ?_, fun _ _ => first⟩
    obtain ⟨d, checked⟩ := checks k ok
    have captures := Step.Ends.both (Install.captureAlong (i := i) Upholds.lax meanwhile k x)
      (Install.captureCopies k x)
    refine Action.endsBind.mpr (Step.Ends.weaken captures fun r y ⟨second, copies⟩ => ?_)
    have before : Upholds given w y := Upholds.lax.trans first second
    refine ⟨fun c ok => ?_, fun _ _ => before⟩
    obtain ⟨rfl, d', bytes, again, copied⟩ := copies c ok
    refine (Install.patchSplits i c y).weaken fun r z outcome => ?_
    rcases outcome with ⟨e, patched, there, won, _, rfl⟩ | ⟨served, _⟩
    · intro booked
      obtain ⟨booked', amends⟩ := before booked
      rw [checked.method] at again there ⊢
      cases checked.found.symm.trans (tidy.descriptor m ▸ again)
      have plain : d.Plain := booked.unhooked checked.found (by simpa [recordOf, checked.found] using free)
      have snapshot : c.snapshot.descriptor.Plain := copied ▸ ⟨plain.entry, plain.word⟩
      obtain ⟨native, rfl⟩ := Descriptor.patchIs.mp won
      obtain ⟨word, is⟩ := snapshot.word
      have unclaimed : e.record? = none := Descriptor.wordUnrecorded (native.trans is)
      obtain ⟨later, more⟩ := booked'.claimed (r := c.record i e) allowed there
        (booked'.unhooked there unclaimed) checked.method snapshot
      exact ⟨later, amends.trans more⟩
    · exact Upholds.lax.trans before (Upholds.lax.aside (.served served))

end Detour
