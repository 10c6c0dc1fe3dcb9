import Detour.Proofs.Hook.Calling
import Detour.Proofs.Hook.Installing

/-! The state of a method's hook. A method is unhooked, as it was defined, or hooked by one record, whose
snapshot is the descriptor as it stood when it was claimed. Between capture and claim other code runs, and
may hook the method itself or overwrite its native-data word; the compare-and-swap lets the claim through
only if the descriptor is still the captured one. -/
namespace Detour

open World

variable {σ : Type}

def Descriptor.patched (d : Descriptor) (style : PatchStyle) (id : Nat) : Descriptor :=
  { style.apply d with nativeData := .record id, entryPoint := .trampoline }

namespace Descriptor

theorem patchIs {d after : Descriptor} {style expected id} :
    d.patch? style expected id = some after ↔
      d.nativeData = expected ∧ after = d.patched style id := by
  unfold patch? claim?
  split
  next same =>
    cases style <;> simp [same, patched, PatchStyle.apply, eq_comm]
  next differs => simp [differs]

end Descriptor

theorem captureDescriptor {l : Layout} {slack : UInt64} {d : Descriptor} {s : Snapshot}
    (copied : Snapshot.capture l slack d = .ok (.ok s)) :
    s.descriptor =
      { d with trailing := d.trailing.take (l.copySize.toNat - Layout.compiled.descriptorSize.toNat) } := by
  rcases Nat.lt_or_ge (l.copySize.toNat + slack.toNat) UInt64.size with fits | overflows
  · rw [Snapshot.captureFits fits] at copied
    split at copied
    next => cases copied
    next =>
      cases copied
      rfl
  · rw [Snapshot.captureOverflows overflows] at copied
    cases copied

theorem captureWhole {l : Layout} {slack : UInt64} {d : Descriptor} {s : Snapshot}
    (copied : Snapshot.capture l slack d = .ok (.ok s))
    (trailing : d.trailing.length = l.copySize.toNat - Layout.compiled.descriptorSize.toNat) :
    s.descriptor = d := by
  rw [captureDescriptor copied, ← trailing, List.take_length]

/-! ## The invariant -/

structure Unhooked (w : World σ) (index : Nat) (d : Descriptor) : Prop where
  entry : d.entryPoint = .code (Method.entryAddress (index + 1))
  word : ∃ word, d.nativeData = .word word
  unclaimed : ∀ r ∈ w.records, r.method ≠ .live index

structure Hooked (w : World σ) (index : Nat) (d : Descriptor) (id : Nat) (r : InstalledHook) : Prop where
  found : w.records[id]? = some r
  method : r.method = .live index
  only : ∀ id' r', w.records[id']? = some r' → r'.method = .live index → id' = id
  live : d = r.snapshot.descriptor.patched r.interceptor.settings.patchStyle id
  entry : r.snapshot.descriptor.entryPoint = .code (Method.entryAddress (index + 1))
  word : ∃ word, r.snapshot.descriptor.nativeData = .word word

structure InstalledHook.Made (r : InstalledHook) (t : ClassTable) : Prop where
  shorty : r.snapshot.descriptor.shorty = .ok r.shorty
  isStatic : r.isStatic = r.snapshot.descriptor.isStatic
  slots : r.slots = Detour.slots r.interceptor.arch.abi r.shorty r.isStatic
  concrete : r.snapshot.descriptor.isAbstract = false
  declared : ∃ c, r.snapshot.descriptor.declaringClass = some c ∧
    (r.snapshot.descriptor.isStatic = true → t.isInitialized c = true)

structure Sound (w : World σ) : Prop where
  states : ∀ index d, w.descriptor? (.live index) = some d →
    Unhooked w index d ∨ ∃ id r, Hooked w index d id r
  trailing : ∀ index d, w.descriptor? (.live index) = some d →
    d.trailing.length = w.vm.layout.copySize.toNat - Layout.compiled.descriptorSize.toNat
  numbered : ∀ index d, w.descriptor? (.live index) = some d → d.codeItem.toNat ≤ index + 1
  records : ∀ r ∈ w.records, ∃ index d, r.method = .live index ∧ w.descriptor? (.live index) = some d
  made : ∀ r ∈ w.records, r.Made w.vm.classes

/-- What no code undoes: a hooked descriptor stays as it is, an unhooked one changes its native-data word
only, until it is hooked. -/
structure Evolves (w v : World σ) : Prop where
  hooked : ∀ index d, w.descriptor? (.live index) = some d → d.isHooked = true →
    v.descriptor? (.live index) = some d
  unhooked : ∀ index d, w.descriptor? (.live index) = some d → d.isHooked = false →
    ∃ e, v.descriptor? (.live index) = some e ∧
      (e.isHooked = true ∨ e = { d with nativeData := e.nativeData })

namespace Unhooked

variable {w : World σ} {index : Nat} {d : Descriptor}

theorem notHooked (unhooked : Unhooked w index d) : d.isHooked = false := by
  simp [Descriptor.isHooked, unhooked.entry]

theorem published {x : World σ} {extra : List InstalledHook} (unhooked : Unhooked w index d)
    (records : x.records = w.records ++ extra) (others : ∀ r ∈ extra, r.method ≠ .live index) :
    Unhooked x index d := by
  refine ⟨unhooked.entry, unhooked.word, fun r mem => ?_⟩
  rw [records] at mem
  exact (List.mem_append.mp mem).elim (unhooked.unclaimed r) (others r)

end Unhooked

namespace Hooked

variable {w : World σ} {index id : Nat} {d : Descriptor} {r : InstalledHook}

theorem isHooked (hooked : Hooked w index d id r) : d.isHooked = true := by
  simp [hooked.live, Descriptor.isHooked, Descriptor.patched]

theorem recorded (hooked : Hooked w index d id r) : d.record? = some id := by
  simp [hooked.live, Descriptor.record?, Descriptor.patched]

theorem nativeData (hooked : Hooked w index d id r) : d.nativeData = .record id := by
  simp [hooked.live, Descriptor.patched]

theorem published {x : World σ} {extra : List InstalledHook} (hooked : Hooked w index d id r)
    (records : x.records = w.records ++ extra) (others : ∀ r ∈ extra, r.method ≠ .live index) :
    Hooked x index d id r := by
  refine { hooked with found := ?_, only := fun id' r' found method => ?_ }
  · rw [records, List.getElem?_append_left (List.getElem?_eq_some_iff.mp hooked.found).1]
    exact hooked.found
  · rw [records] at found
    rcases Nat.lt_or_ge id' w.records.length with old | new
    · rw [List.getElem?_append_left old] at found
      exact hooked.only id' r' found method
    · rw [List.getElem?_append_right new] at found
      exact absurd method (others r' (List.mem_of_getElem? found))

end Hooked

namespace Evolves

variable {w v x : World σ}

theorem refl (w : World σ) : Evolves w w :=
  ⟨fun _ _ found _ => found, fun _ d found _ => ⟨d, found, Or.inr rfl⟩⟩

theorem trans (first : Evolves w v) (second : Evolves v x) : Evolves w x := by
  refine ⟨fun index d found hooked => second.hooked index d (first.hooked index d found hooked) hooked, ?_⟩
  intro index d found unhooked
  obtain ⟨e, there, became⟩ := first.unhooked index d found unhooked
  cases hooked : e.isHooked with
  | true => exact ⟨e, second.hooked index e there hooked, Or.inl hooked⟩
  | false =>
    have same := became.resolve_left (by simp [hooked])
    obtain ⟨f, later, ended⟩ := second.unhooked index e there hooked
    refine ⟨f, later, ended.imp_right fun is => ?_⟩
    rw [same] at is
    exact is

end Evolves

namespace Sound

variable {w : World σ} {index id : Nat} {r : InstalledHook}

theorem hookedBy (sound : Sound w) (found : w.records[id]? = some r) (method : r.method = .live index) :
    ∃ d, w.descriptor? (.live index) = some d ∧ Hooked w index d id r := by
  obtain ⟨j, d, same, there⟩ := sound.records r (List.mem_of_getElem? found)
  cases method.symm.trans same
  rcases sound.states index d there with unhooked | ⟨id', r', hooked⟩
  · exact absurd method (unhooked.unclaimed r (List.mem_of_getElem? found))
  · obtain rfl := hooked.only id r found method
    cases hooked.found.symm.trans found
    exact ⟨d, there, hooked⟩

theorem stands {x : World σ} {d : Descriptor} {extra : List InstalledHook} (sound : Sound w)
    (found : w.descriptor? (.live index) = some d) (records : x.records = w.records ++ extra)
    (others : ∀ r ∈ extra, r.method ≠ .live index) :
    Unhooked x index d ∨ ∃ id r, Hooked x index d id r :=
  (sound.states index d found).imp (·.published records others)
    fun ⟨id, r, hooked⟩ => ⟨id, r, hooked.published records others⟩

theorem unhooked {d : Descriptor} (sound : Sound w) (found : w.descriptor? (.live index) = some d)
    (plain : d.isHooked = false) : Unhooked w index d := by
  rcases sound.states index d found with unhooked | ⟨id, r, hooked⟩
  · exact unhooked
  · exact nomatch hooked.isHooked.symm.trans plain

theorem recorded (sound : Sound w) (known : w.recordOf (.live index) = some id) :
    ∃ d r, w.descriptor? (.live index) = some d ∧ Hooked w index d id r := by
  obtain ⟨d, there, record⟩ := Option.bind_eq_some_iff.mp known
  rcases sound.states index d there with unhooked | ⟨id', r, hooked⟩
  · simp [Descriptor.record?, unhooked.entry] at record
  · cases hooked.recorded.symm.trans record
    exact ⟨d, r, there, hooked⟩

end Sound

/-! ## Steps -/

namespace World

variable {w : World σ}

theorem withDescriptorLive (w : World σ) (i j : Nat) (d : Descriptor) :
    (w.withDescriptor (.live i) d).descriptor? (.live j) =
      if i = j then (w.descriptor? (.live j)).map fun _ => d else w.descriptor? (.live j) := by
  simp only [descriptor?, withDescriptor, List.getElem?_modify]
  cases w.vm.methods[j]? <;> split <;> simp_all

theorem claimedLive (w : World σ) (i j : Nat) (d : Descriptor) (r : InstalledHook) :
    (w.claimed (.live i) d r).descriptor? (.live j) =
      if i = j then (w.descriptor? (.live j)).map fun _ => d else w.descriptor? (.live j) :=
  withDescriptorLive w i j d

theorem withDescriptorFound {i : Nat} {d : Descriptor} (found : w.descriptor? (.live i) = some d)
    (e : Descriptor) (j : Nat) : (w.withDescriptor (.live i) e).descriptor? (.live j) =
      if i = j then some e else w.descriptor? (.live j) := by
  rw [withDescriptorLive]
  split
  next same =>
    subst same
    rw [found, Option.map_some]
  next => rfl

theorem countedLive (w : World σ) (i j : Nat) :
    (w.counted i).descriptor? (.live j) = w.descriptor? (.live j) := by
  simp only [descriptor?, counted, List.getElem?_modify]
  cases w.vm.methods[j]? <;> split <;> simp_all

theorem liveBelow {i : Nat} {d : Descriptor} (found : w.descriptor? (.live i) = some d) :
    i < w.vm.methods.length := by
  obtain ⟨info, there, _⟩ := Option.map_eq_some_iff.mp found
  exact (List.getElem?_eq_some_iff.mp there).1

theorem definedLive {i : Nat} {d : Descriptor} (info : Method) (found : w.descriptor? (.live i) = some d) :
    ({ w with vm.methods := w.vm.methods ++ [info] } : World σ).descriptor? (.live i) = some d := by
  change (w.vm.methods ++ [info])[i]?.map (·.descriptor) = some d
  rw [List.getElem?_append_left (liveBelow found)]
  exact found

theorem definedFrom {i : Nat} {d : Descriptor} {info : Method}
    (found : ({ w with vm.methods := w.vm.methods ++ [info] } : World σ).descriptor? (.live i) = some d) :
    w.descriptor? (.live i) = some d ∨ i = w.vm.methods.length ∧ d = info.descriptor := by
  change (w.vm.methods ++ [info])[i]?.map (·.descriptor) = some d at found
  rcases Nat.lt_trichotomy i w.vm.methods.length with below | rfl | above
  · rw [List.getElem?_append_left below] at found
    exact Or.inl found
  · simp at found
    exact Or.inr ⟨rfl, found.symm⟩
  · rw [List.getElem?_eq_none (by simp; omega)] at found
    simp at found

end World

structure Rewrites (w x : World σ) (index : Nat) (d e : Descriptor) (extra : List InstalledHook) : Prop where
  found : w.descriptor? (.live index) = some d
  unhooked : Unhooked w index d
  there : ∀ j, x.descriptor? (.live j) = if index = j then some e else w.descriptor? (.live j)
  records : x.records = w.records ++ extra
  layout : x.vm.layout = w.vm.layout
  classes : x.vm.classes = w.vm.classes
  own : ∀ r ∈ extra, r.method = .live index ∧ r.Made w.vm.classes
  state : Unhooked x index e ∨ ∃ id r, Hooked x index e id r
  trailing : e.trailing = d.trailing
  numbered : e.codeItem = d.codeItem
  became : e.isHooked = true ∨ e = { d with nativeData := e.nativeData }

namespace Rewrites

variable {w x : World σ} {index j : Nat} {d e f : Descriptor} {extra : List InstalledHook}

theorem written (rewrites : Rewrites w x index d e extra) : x.descriptor? (.live index) = some e := by
  rw [rewrites.there, if_pos rfl]

theorem elsewhere (rewrites : Rewrites w x index d e extra) (other : index ≠ j) :
    x.descriptor? (.live j) = w.descriptor? (.live j) := by
  rw [rewrites.there, if_neg other]

theorem reads (rewrites : Rewrites w x index d e extra) (is : x.descriptor? (.live j) = some f) :
    j = index ∧ f = e ∨ index ≠ j ∧ w.descriptor? (.live j) = some f := by
  rcases eq_or_ne index j with rfl | other
  · exact Or.inl ⟨rfl, Option.some.inj (is.symm.trans rewrites.written)⟩
  · exact Or.inr ⟨other, (rewrites.elsewhere other).symm.trans is⟩

theorem sound (rewrites : Rewrites w x index d e extra) (sound : Sound w) : Sound x := by
  constructor
  · intro j f is
    rcases rewrites.reads is with ⟨rfl, rfl⟩ | ⟨other, before⟩
    · exact rewrites.state
    · refine sound.stands before rewrites.records fun r new same => other ?_
      exact MethodAddress.live.inj ((rewrites.own r new).1.symm.trans same)
  · intro j f is
    rw [rewrites.layout]
    rcases rewrites.reads is with ⟨rfl, rfl⟩ | ⟨_, before⟩
    · exact rewrites.trailing ▸ sound.trailing j d rewrites.found
    · exact sound.trailing j f before
  · intro j f is
    rcases rewrites.reads is with ⟨rfl, rfl⟩ | ⟨_, before⟩
    · exact rewrites.numbered ▸ sound.numbered j d rewrites.found
    · exact sound.numbered j f before
  · intro r mem
    rw [rewrites.records] at mem
    rcases List.mem_append.mp mem with before | new
    · obtain ⟨j, f, method, is⟩ := sound.records r before
      rcases eq_or_ne index j with rfl | other
      · exact ⟨index, e, method, rewrites.written⟩
      · exact ⟨j, f, method, (rewrites.elsewhere other).trans is⟩
    · exact ⟨index, e, (rewrites.own r new).1, rewrites.written⟩
  · intro r mem
    rw [rewrites.records] at mem
    rw [rewrites.classes]
    exact (List.mem_append.mp mem).elim (sound.made r) fun new => (rewrites.own r new).2

theorem evolves (rewrites : Rewrites w x index d e extra) : Evolves w x := by
  constructor
  · intro j f is hooked
    rcases eq_or_ne index j with rfl | other
    · cases rewrites.found.symm.trans is
      exact nomatch rewrites.unhooked.notHooked.symm.trans hooked
    · exact (rewrites.elsewhere other).trans is
  · intro j f is _
    rcases eq_or_ne index j with rfl | other
    · cases rewrites.found.symm.trans is
      exact ⟨e, rewrites.written, rewrites.became⟩
    · exact ⟨f, (rewrites.elsewhere other).trans is, Or.inr rfl⟩

end Rewrites

namespace Sound

variable {w x : World σ}

theorem ofSame (sound : Sound w) (descriptors : ∀ index, x.descriptor? (.live index) = w.descriptor? (.live index))
    (records : x.records = w.records) (layout : x.vm.layout = w.vm.layout)
    (grown : w.vm.classes.Grows x.vm.classes) : Sound x ∧ Evolves w x := by
  constructor
  · constructor
    · intro index d found
      exact sound.stands (descriptors index ▸ found) (records.trans (List.append_nil _).symm) (by simp)
    · intro index d found
      rw [layout]
      exact sound.trailing index d (descriptors index ▸ found)
    · intro index d found
      exact sound.numbered index d (descriptors index ▸ found)
    · intro r mem
      obtain ⟨index, d, method, found⟩ := sound.records r (records ▸ mem)
      exact ⟨index, d, method, (descriptors index).trans found⟩
    · intro r mem
      obtain ⟨shorty, isStatic, slots, concrete, c, declared, done⟩ := sound.made r (records ▸ mem)
      exact ⟨shorty, isStatic, slots, concrete, c, declared, fun static => grown c (done static)⟩
  · exact ⟨fun index d found _ => (descriptors index).trans found,
      fun index d found _ => ⟨d, (descriptors index).trans found, Or.inr rfl⟩⟩

theorem defines {info c name signature flags} (sound : Sound w)
    (made : Method.define w.vm.classes w.vm.layout (w.vm.methods.length + 1) c name signature flags =
      .ok info) :
    Sound { w with vm.methods := w.vm.methods ++ [info] } ∧
      Evolves w { w with vm.methods := w.vm.methods ++ [info] } := by
  obtain ⟨text, defined⟩ := Method.descriptorDefined made
  have unclaimed : ∀ r ∈ w.records, r.method ≠ .live w.vm.methods.length := by
    intro r mem same
    obtain ⟨index, d, method, found⟩ := sound.records r mem
    cases same.symm.trans method
    exact Nat.lt_irrefl _ (liveBelow found)
  constructor
  · constructor
    · intro index d found
      rcases definedFrom found with before | ⟨rfl, rfl⟩
      · exact sound.stands before (List.append_nil _).symm (by simp)
      · exact Or.inl ⟨by rw [defined]; rfl, ⟨_, by rw [defined]; rfl⟩, unclaimed⟩
    · intro index d found
      rcases definedFrom found with before | ⟨rfl, rfl⟩
      · exact sound.trailing index d before
      · rw [defined]
        exact List.length_replicate
    · intro index d found
      rcases definedFrom found with before | ⟨rfl, rfl⟩
      · exact sound.numbered index d before
      · rw [defined]
        exact Nat.mod_le _ _
    · intro r mem
      obtain ⟨index, d, method, found⟩ := sound.records r mem
      exact ⟨index, d, method, definedLive info found⟩
    · exact sound.made
  · exact ⟨fun index d found _ => definedLive info found,
      fun index d found _ => ⟨d, definedLive info found, Or.inr rfl⟩⟩

theorem overwrites {index d} (sound : Sound w) (found : w.descriptor? (.live index) = some d)
    (plain : d.isHooked = false) (word : UInt64) :
    Sound (w.withDescriptor (.live index) { d with nativeData := .word word }) ∧
      Evolves w (w.withDescriptor (.live index) { d with nativeData := .word word }) := by
  have unhooked := sound.unhooked found plain
  have rewrites : Rewrites w (w.withDescriptor (.live index) { d with nativeData := .word word }) index d
      { d with nativeData := .word word } [] := {
    found, unhooked
    there := withDescriptorFound found _
    records := (List.append_nil _).symm
    layout := rfl
    classes := rfl
    own := by simp
    state := Or.inl ⟨unhooked.entry, ⟨word, rfl⟩, unhooked.unclaimed⟩
    trailing := rfl
    numbered := rfl
    became := Or.inr rfl }
  exact ⟨rewrites.sound sound, rewrites.evolves⟩

theorem move {p : Rights σ} {n : Nat} (sound : Sound w) (move : Move p n w x) :
    Sound x ∧ Evolves w x := by
  cases move with
  | runs change =>
    obtain ⟨_, layout, methods⟩ := change.fixed
    exact sound.ofSame (fun index => by simp [descriptor?, methods]) rfl layout change.initialized
  | counts index => exact sound.ofSame (countedLive w index) rfl rfl fun _ done => done
  | defines made => exact sound.defines made
  | overwrites found plain word => exact sound.overwrites found plain word
  | _ => exact sound.ofSame (fun _ => rfl) rfl rfl fun _ done => done

section Claim

variable {k : Captured} {i : Interceptor} {index : Nat} {d patched : Descriptor}

theorem claimsSnapshot (sound : Sound w) (captured : Captured.From k i index d w) :
    k.snapshot.descriptor = d ∧ Unhooked w index d := by
  refine ⟨captureWhole captured.copied ?_, ?_⟩
  · rw [captured.layout]
    exact sound.trailing index d captured.found
  · rcases sound.states index d captured.found with unhooked | ⟨id, r, hooked⟩
    · exact unhooked
    · exact nomatch hooked.recorded.symm.trans captured.unhooked

theorem claimsMade (sound : Sound w) (captured : Captured.From k i index d w) :
    (k.record i d).Made w.vm.classes := by
  have whole := (sound.claimsSnapshot captured).1
  obtain ⟨c, declared, done⟩ := captured.declared
  exact {
    shorty := (congrArg Descriptor.shorty whole).trans captured.shorty
    isStatic := (congrArg Descriptor.isStatic whole).symm
    slots := rfl
    concrete := (congrArg Descriptor.isAbstract whole).trans captured.concrete
    declared := ⟨c, (congrArg Descriptor.declaringClass whole).trans declared, fun static =>
      done ((congrArg Descriptor.isStatic whole).symm.trans static)⟩ }

theorem claimsHooked (sound : Sound w) (captured : Captured.From k i index d w) :
    Hooked (w.claimed (.live index) (d.patched i.settings.patchStyle w.records.length) (k.record i d)) index
      (d.patched i.settings.patchStyle w.records.length) w.records.length (k.record i d) := by
  obtain ⟨whole, unhooked⟩ := sound.claimsSnapshot captured
  refine {
    found := by simp [claimed, publish, withDescriptor]
    method := captured.method
    only := fun id r is method => ?_
    live := by rw [← whole]; rfl
    entry := (congrArg Descriptor.entryPoint whole).trans unhooked.entry
    word := unhooked.word.imp fun word native => (congrArg Descriptor.nativeData whole).trans native }
  have records : (w.records ++ [k.record i d])[id]? = some r := is
  rcases Nat.lt_trichotomy id w.records.length with before | same | past
  · rw [List.getElem?_append_left before] at records
    exact absurd method (unhooked.unclaimed r (List.mem_of_getElem? records))
  · exact same
  · rw [List.getElem?_eq_none (by simp; omega)] at records
    contradiction

theorem claims (sound : Sound w) (captured : Captured.From k i index d w)
    (wins : k.Wins i index d patched w) :
    Sound (w.claimed (.live index) patched (k.record i d)) ∧
      Evolves w (w.claimed (.live index) patched (k.record i d)) := by
  obtain ⟨_, rfl⟩ := Descriptor.patchIs.mp wins.patch
  have hooked := sound.claimsHooked captured
  have rewrites : Rewrites w
      (w.claimed (.live index) (d.patched i.settings.patchStyle w.records.length) (k.record i d)) index d
      (d.patched i.settings.patchStyle w.records.length) [k.record i d] := {
    found := captured.found
    unhooked := (sound.claimsSnapshot captured).2
    there := withDescriptorFound captured.found _
    records := rfl
    layout := rfl
    classes := rfl
    own := by simpa using ⟨captured.method, sound.claimsMade captured⟩
    state := Or.inr ⟨_, _, hooked⟩
    trailing := by cases i.settings.patchStyle <;> rfl
    numbered := by cases i.settings.patchStyle <;> rfl
    became := Or.inl hooked.isHooked }
  exact ⟨rewrites.sound sound, rewrites.evolves⟩

end Claim
end Sound

/-! ## Runs -/

/-- A run in which every method is claimed at the moment it is captured. -/
inductive Straight (p : Rights σ) (n : Nat) : World σ → World σ → Prop
  | refl (w) : Straight p n w w
  | moves {w v x} (before : Straight p n w v) (move : Move p n v x) : Straight p n w x
  | claims {w v i k index d patched} (before : Straight p n w v)
    (captured : Captured.From k i index d v) (wins : k.Wins i index d patched v) :
    Straight p n w (v.claimed (.live index) patched (k.record i d))

namespace Straight

variable {p : Rights σ} {n : Nat} {w u v : World σ}

theorem trans (first : Straight p n w u) (second : Straight p n u v) : Straight p n w v := by
  induction second with
  | refl => exact first
  | moves _ move ih => exact ih.moves move
  | claims _ captured wins ih => exact ih.claims captured wins

theorem sound (straight : Straight p n w v) (sound : Sound w) : Sound v := by
  induction straight with
  | refl => exact sound
  | moves _ move ih => exact (ih.move move).1
  | claims _ captured wins ih => exact (ih.claims captured wins).1

end Straight

theorem Leads.straight {p : Rights σ} {n : Nat} {w v : World σ} (leads : Leads p n w v) (sound : Sound w) :
    Sound v ∧ Evolves w v ∧ Straight p n w v := by
  -- A claim comes with two runs, up to its capture and from there on; both keep the invariant, and the word
  -- that the claim compares tells that nobody else's claim lies between.
  induction leads with
  | refl w => exact ⟨sound, .refl w, .refl w⟩
  | moves _ move ih =>
    obtain ⟨there, evolved, straight⟩ := ih sound
    obtain ⟨after, more⟩ := there.move move
    exact ⟨after, evolved.trans more, straight.moves move⟩
  | @claims w u v i k index copied d patched _ captured meanwhile wins _ ih again =>
    obtain ⟨atCapture, evolved, first⟩ := ih sound
    obtain ⟨atClaim, more, second⟩ := again atCapture
    obtain ⟨whole, unhooked⟩ := atCapture.claimsSnapshot captured
    obtain ⟨e, there, became⟩ := more.unhooked index copied captured.found unhooked.notHooked
    cases there.symm.trans wins.found
    obtain ⟨native, _⟩ := Descriptor.patchIs.mp wins.patch
    have same : d = copied := by
      rcases became with hooked | same
      · rcases atClaim.states index d there with plain | ⟨id, r, claimed⟩
        · exact nomatch plain.notHooked.symm.trans hooked
        · obtain ⟨word, plain⟩ := unhooked.word
          rw [claimed.nativeData, whole, plain] at native
          contradiction
      · rw [same, native, whole]
    subst same
    obtain ⟨c, declared, done⟩ := captured.declared
    have now : Captured.From k i index d v := {
      method := captured.method
      layout := captured.layout.trans meanwhile.layout.symm
      found := there
      unhooked := captured.unhooked
      concrete := captured.concrete
      shorty := captured.shorty
      declared := ⟨c, declared, fun static => meanwhile.initialized c (done static)⟩
      copied := captured.copied }
    obtain ⟨after, last⟩ := atClaim.claims now wins
    exact ⟨after, (evolved.trans more).trans last, (first.trans second).claims now wins⟩

theorem Straight.history {p : Rights σ} {n : Nat} {s w : World σ} (straight : Straight p n s w)
    (sound : Sound s) (empty : s.records = []) :
    ∀ id r, w.records[id]? = some r → ∃ index v patched, r.method = .live index ∧
      Straight p n s v ∧ v.records.length = id ∧
      v.descriptor? (.live index) = some r.snapshot.descriptor ∧
      Straight p n (v.claimed (.live index) patched r) w := by
  induction straight with
  | refl => simp [empty]
  | moves _ move ih =>
    intro id r found
    rw [move.records] at found
    obtain ⟨index, v, patched, method, before, length, claimed, after⟩ := ih id r found
    exact ⟨index, v, patched, method, before, length, claimed, after.moves move⟩
  | @claims v i k index d patched before captured wins ih =>
    intro id r found
    have records : (v.records ++ [k.record i d])[id]? = some r := found
    rcases Nat.lt_or_ge id v.records.length with old | new
    · rw [List.getElem?_append_left old] at records
      obtain ⟨index, u, patched, method, first, length, claimed, after⟩ := ih id r records
      exact ⟨index, u, patched, method, first, length, claimed, after.claims captured wins⟩
    · rw [List.getElem?_append_right new] at records
      rw [List.getElem?_singleton] at records
      split at records <;> cases records
      rename_i last
      obtain ⟨whole, _⟩ := (before.sound sound).claimsSnapshot captured
      refine ⟨index, v, patched, captured.method, before, by omega, ?_, .refl _⟩
      exact captured.found.trans (congrArg some whole.symm)

def Rights.free (σ : Type) : Rights σ := ⟨fun _ _ => True, fun _ => False, False⟩

inductive Reachable (p : Rights σ) (s : World σ) : World σ → Prop
  | start : Reachable p s s
  | between {w v n} (before : Reachable p s w) (leads : Leads p n w v) : Reachable p s v
  | installs {w v t intrude index payload r handler settings} (before : Reachable p s w)
    (made : Interceptor.create w.vm.layout handler settings = .ok t.interceptor)
    (lawful : Install.Lawful p intrude)
    (run : Transaction.install intrude t (.live index) payload w = .ok (r, v)) : Reachable p s v
  | installsNamed {w v t intrude c name signature payload r handler settings} (before : Reachable p s w)
    (made : Interceptor.create w.vm.layout handler settings = .ok t.interceptor)
    (lawful : Install.Lawful p intrude)
    (run : Transaction.installNamed intrude t c name signature payload w = .ok (r, v)) :
    Reachable p s v
  | calls {w v g depth m receiver args r} (before : Reachable p s w) (lawful : Guest.Lawful p g)
    (run : (call g depth m receiver args).run w = .ok (r, v)) : Reachable p s v
  | callsUnhooked {w v g depth m receiver args r} (before : Reachable p s w) (lawful : Guest.Lawful p g)
    (run : (callUnhooked (call g depth) m receiver args).run w = .ok (r, v)) : Reachable p s v
  | callsInherited {w v g depth m receiver args r} (before : Reachable p s w) (lawful : Guest.Lawful p g)
    (run : (callInherited (call g depth) m receiver args).run w = .ok (r, v)) : Reachable p s v

theorem Interceptor.createLayout {layout : Layout} {handler : Handler} {settings : Settings}
    {i : Interceptor} (made : Interceptor.create layout handler settings = .ok i) : i.layout = layout := by
  unfold Interceptor.create at made
  split at made
  next => contradiction
  next => rw [← Except.ok.inj made]

theorem Transaction.installLeads {p : Rights σ} {t : Transaction} {w : World σ}
    {intrude : MethodAddress → Act σ RuntimeError Unit} (lawful : Install.Lawful p intrude)
    (index : Nat) (payload : Option Ref) (ready : Ready p w) (fits : t.interceptor.layout = w.vm.layout) :
    Step.Ends (fun _ => True) (t.install intrude (.live index) payload) w fun _ x =>
      Leads p w.vm.handles.next w x := by
  refine Step.endsBind.mpr (Step.Ends.weaken (installRespects lawful index payload w ready fits) fun r x leads => ?_)
  cases r <;> exact leads

theorem Reachable.leads {p : Rights σ} {s w : World σ} (reachable : Reachable p s w) (ready : Ready p s) :
    Leads p 0 s w := by
  induction reachable with
  | start => exact .refl s
  | between _ leads ih => exact ih.trans (leads.widen (Nat.zero_le _))
  | @installs w v t intrude index payload r handler settings _ made lawful run ih =>
    have fits := Interceptor.createLayout made
    have leads := (Transaction.installLeads lawful index payload (ih.ready ready) fits).result run
    exact ih.trans (leads.widen (Nat.zero_le _))
  | @installsNamed w v t intrude c name signature payload r handler settings _ made lawful run ih =>
    have fits := Interceptor.createLayout made
    have ends : Step.Ends (fun _ => True) (Transaction.installNamed intrude t c name signature payload) w
        fun _ x => Leads p w.vm.handles.next w x := by
      refine Step.endsGetBind.mpr ?_
      split
      next index _ => exact Transaction.installLeads lawful index payload (ih.ready ready) fits
      next => exact .refl w
    exact ih.trans ((ends.result run).widen (Nat.zero_le _))
  | calls _ lawful run ih =>
    have leads := Step.Ends.result (callRespects lawful _ _ _ _ _ (ih.ready ready)) run
    exact ih.trans (leads.widen (Nat.zero_le _))
  | callsUnhooked _ lawful run ih =>
    have leads := Step.Ends.result
      (callUnhookedRespects (callRespects lawful _) _ _ _ _ (ih.ready ready)) run
    exact ih.trans (leads.widen (Nat.zero_le _))
  | callsInherited _ lawful run ih =>
    have leads := Step.Ends.result
      (callInheritedRespects (callRespects lawful _) _ _ _ _ (ih.ready ready)) run
    exact ih.trans (leads.widen (Nat.zero_le _))

theorem soundStart (arch : Architecture) (layout : Layout) (user : σ) :
    Sound (World.start (Vm.start arch layout) user) := by
  have bare (index : Nat) (d : Descriptor) :
      (World.start (Vm.start arch layout) user).descriptor? (.live index) ≠ some d := by
    simp [World.start, Vm.start, descriptor?]
  have unrecorded : (World.start (Vm.start arch layout) user).records = [] := rfl
  constructor
  · exact fun index d found => absurd found (bare index d)
  · exact fun index d found => absurd found (bare index d)
  · exact fun index d found => absurd found (bare index d)
  · simp [unrecorded]
  · simp [unrecorded]

namespace Sample

def method : Method where
  declaredIn := .object
  name := "f"
  signature := "()V"
  paramClasses := []
  resultClass := none
  descriptor := Method.descriptorOf Layout.compiled 1 .object Descriptor.staticFlag [86]
  calls := 0

def fresh : World Unit := World.start (Vm.start .arm Layout.compiled) ()

def interceptor : Interceptor := ⟨.plain 0, Settings.standard, .arm, Layout.compiled⟩

theorem methodDefined :
    Method.define fresh.vm.classes fresh.vm.layout 1 .object "f" "()V" Descriptor.staticFlag =
      .ok method := by
  have nothing : TypeTerm.takeAll [] = [] := by
    rw [TypeTerm.takeAll]
    rfl
  have chars : "()V".toList = ['(', ')', 'V'] := rfl
  have small : 'V'.utf8Size = 1 := by decide
  have parsed : Signature.parse "()V" = .ok ⟨[], .letter 'V'⟩ := by
    simp [Signature.parse, chars, TypeTerm.take?, nothing, TypeTerm.kindChar, small]
  unfold Method.define
  rw [parsed]
  rfl

theorem methodShorty : method.descriptor.shorty = .ok ⟨.void, []⟩ := by
  have decoded : Text.Utf8.decode? [86] = some "V" := by
    simp [Text.Utf8.decode?, Text.Utf8.scan, Text.Utf8.step]
  unfold Descriptor.shorty
  rw [show method.descriptor.shortyContent = [86] from rfl, decoded]
  rfl

def pinnedOnce : World Unit := fresh.pinned .globalHandle none

def defined : World Unit := { pinnedOnce with vm.methods := [method] }

def captured : Captured := ⟨⟨.live 0, ⟨.void, []⟩, none⟩, ⟨method.descriptor, 96⟩, ⟨1⟩⟩

def hooked : World Unit :=
  defined.claimed (.live 0) (method.descriptor.patched .compiledEntry 0)
    (captured.record interceptor method.descriptor)

theorem capturedFrom : Captured.From captured interceptor 0 method.descriptor defined where
  method := rfl
  layout := rfl
  found := rfl
  unhooked := rfl
  concrete := rfl
  shorty := methodShorty
  declared := ⟨.object, rfl, fun _ => rfl⟩
  copied := by decide

theorem hookedReachable : Reachable (Rights.free Unit) fresh hooked := by
  have first : Leads (Rights.free Unit) 0 fresh pinnedOnce := .moves (.refl _) (.runs (.pinned _ _))
  have before : Leads (Rights.free Unit) 0 fresh defined := .moves first (.defines methodDefined)
  exact .between .start (before.claims capturedFrom (.refl defined) ⟨rfl, by decide⟩ (by decide))

end Sample

end Detour
