import Detour.Proofs.HookState
import Detour.Proofs.Vm.Lineage

/-! The methods of a runtime as they were declared. Hooks change a method's descriptor and calls are counted,
but its class, its name and signature and what was read off them last; and a method is found by its name and
signature in the nearest class that declares it. -/
namespace Detour

open World

variable {σ : Type} {p : Rights σ} {n : Nat} {w v x : World σ}

def Method.lasting (info : Method) : Method :=
  { info with
    calls := 0
    descriptor := { info.descriptor with
      accessFlags := 0
      registersSize := 0
      outsSize := 0
      nativeData := .word 0
      entryPoint := .code 0 } }

structure Method.Genuine (info : Method) (index : Nat) : Prop where
  declared : info.descriptor.declaringClass = some info.declaredIn
  shorty : ∃ types, Signature.parse info.signature = .ok types ∧
    info.descriptor.shortyText = some types.shortyText.toUTF8.data.toList
  numbered : info.descriptor.codeItem = (index + 1).toUInt64

def World.Genuine (w : World σ) : Prop :=
  ∀ (index : Nat) (info : Method), w.vm.methods[index]? = some info → info.Genuine index

namespace Method

variable {info other : Method} {index : Nat}

theorem lastingParts (same : other.lasting = info.lasting) :
    other.declaredIn = info.declaredIn ∧ other.name = info.name ∧ other.signature = info.signature ∧
      other.paramClasses = info.paramClasses ∧ other.resultClass = info.resultClass ∧
      other.descriptor.declaringClass = info.descriptor.declaringClass ∧
      other.descriptor.shortyText = info.descriptor.shortyText ∧
      other.descriptor.codeItem = info.descriptor.codeItem := by
  obtain ⟨_, _, _, _, _, descriptor, _⟩ := Method.mk.inj same
  simp_all [lasting]

theorem Genuine.ofLasting (genuine : info.Genuine index) (same : other.lasting = info.lasting) :
    other.Genuine index := by
  obtain ⟨declaredIn, _, signature, _, _, declared, shorty, codeItem⟩ := lastingParts same
  obtain ⟨types, parsed, text⟩ := genuine.shorty
  exact {
    declared := by rw [declared, declaredIn, genuine.declared]
    shorty := ⟨types, by rw [signature, parsed], shorty.trans text⟩
    numbered := codeItem.trans genuine.numbered }

theorem Genuine.sameShorty {at_ : Nat} (genuine : info.Genuine index) (again : other.Genuine at_)
    (same : other.signature = info.signature) : other.descriptor.shorty = info.descriptor.shorty := by
  obtain ⟨types, parsed, text⟩ := genuine.shorty
  obtain ⟨types', parsed', text'⟩ := again.shorty
  rw [same, parsed] at parsed'
  cases parsed'
  simp only [Descriptor.shorty, Descriptor.shortyContent, text, text']

theorem lastingModify {methods : List Method} {f : Method → Method}
    (same : ∀ info, methods[index]? = some info → (f info).lasting = info.lasting) :
    (methods.modify index f).map lasting = methods.map lasting := by
  refine List.ext_getElem? fun j => ?_
  simp only [List.getElem?_map, List.getElem?_modify]
  rcases eq_or_ne index j with rfl | other
  · cases at_ : methods[index]? with
    | none => rfl
    | some info => simp [same info at_]
  · simp [other]

theorem defineGenuine {t : ClassTable} {layout : Layout} {c : ClassId} {name signature : String} {flags : UInt32}
    (made : define t layout (index + 1) c name signature flags = .ok info) : info.Genuine index := by
  unfold define at made
  cases parsed : Signature.parse signature with
  | error f => simp [parsed, bind, Except.bind] at made
  | ok types =>
    simp only [parsed, bind, Except.bind, pure, Except.pure, Except.ok.injEq] at made
    subst made
    exact ⟨rfl, ⟨types, parsed, rfl⟩, rfl⟩

end Method

structure Lasts (w v : World σ) : Prop where
  methods : w.vm.methods.map Method.lasting <+: v.vm.methods.map Method.lasting
  genuine : w.Genuine → v.Genuine

namespace Lasts

theorem ofSame (same : v.vm.methods.map Method.lasting = w.vm.methods.map Method.lasting) : Lasts w v where
  methods := same ▸ List.prefix_rfl
  genuine genuine index info found := by
    have at_ := congrArg (·[index]?) same
    simp only [List.getElem?_map, found, Option.map_some] at at_
    obtain ⟨old, there, is⟩ := Option.map_eq_some_iff.mp at_.symm
    exact (genuine index old there).ofLasting is.symm

theorem trans (first : Lasts w v) (second : Lasts v x) : Lasts w x :=
  ⟨first.methods.trans second.methods, fun genuine => second.genuine (first.genuine genuine)⟩

theorem found (lasts : Lasts w v) {index : Nat} {info : Method} (there : w.vm.methods[index]? = some info) :
    ∃ now, v.vm.methods[index]? = some now ∧ now.lasting = info.lasting := by
  obtain ⟨below, _⟩ := List.getElem?_eq_some_iff.mp there
  obtain ⟨more, is⟩ := lasts.methods
  have at_ := congrArg (·[index]?) is
  simp only [List.getElem?_append_left (show index < (w.vm.methods.map Method.lasting).length by simpa using below),
    List.getElem?_map, there, Option.map_some] at at_
  exact Option.map_eq_some_iff.mp at_.symm

theorem rewritten {index : Nat} {d e : Descriptor} (there : w.descriptor? (.live index) = some d)
    (same : ∀ info : Method, { info with descriptor := e }.lasting = { info with descriptor := d }.lasting) :
    Lasts w (w.withDescriptor (.live index) e) := by
  refine ofSame (Method.lastingModify fun info found => ?_)
  obtain ⟨_, found', rfl⟩ := Option.map_eq_some_iff.mp there
  cases found.symm.trans found'
  exact same info

end Lasts

theorem Move.lasts (move : Move p n w v) : Lasts w v := by
  cases move with
  | runs change => exact .ofSame (by rw [change.fixed.2.2])
  | counts index => exact .ofSame (Method.lastingModify fun _ _ => rfl)
  | @defines info _ _ _ _ made =>
    refine ⟨by simp, fun genuine index info found => ?_⟩
    rcases Nat.lt_or_ge index w.vm.methods.length with old | new
    · exact genuine index info (by simpa only [List.getElem?_append_left old] using found)
    · simp only [List.getElem?_append_right new, List.getElem?_singleton] at found
      split at found <;> cases found
      rename_i last
      obtain rfl : index = w.vm.methods.length := by omega
      exact Method.defineGenuine made
  | overwrites found => exact .rewritten found fun _ => rfl
  | _ => exact .ofSame rfl

theorem Leads.lasts (leads : Leads p n w v) : Lasts w v := by
  induction leads with
  | refl => exact .ofSame rfl
  | moves _ move ih => exact ih.trans move.lasts
  | @claims _ _ v i k _ _ d patched _ _ _ wins _ ih meanwhile =>
    obtain ⟨_, rfl⟩ := Descriptor.patchIs.mp wins.patch
    refine (ih.trans meanwhile).trans ?_
    have rewritten := Lasts.rewritten wins.found (e := d.patched i.settings.patchStyle v.records.length) fun _ => by
      cases i.settings.patchStyle <;> rfl
    exact ⟨rewritten.methods, rewritten.genuine⟩

theorem genuineStart (arch : Architecture) (layout : Layout) (user : σ) :
    (World.start (Vm.start arch layout) user).Genuine := by
  intro index info found
  simp [World.start, Vm.start] at found

structure Method.Declares (info : Method) (c : ClassId) (name signature : String) : Prop where
  owner : info.declaredIn = c
  name : info.name = name
  signature : info.signature = signature

inductive Vm.Offered (vm : Vm) (name signature : String) : List ClassId → Nat → Prop
  | here {owner : ClassId} {above : List ClassId} {index : Nat} {info : Method}
    (there : vm.methods[index]? = some info) (declares : info.Declares owner name signature)
    (first : ∀ j < index, ∀ other, vm.methods[j]? = some other → ¬ other.Declares owner name signature) :
    Vm.Offered vm name signature (owner :: above) index
  | above {owner : ClassId} {above : List ClassId} {index : Nat}
    (absent : ∀ info ∈ vm.methods, ¬ info.Declares owner name signature)
    (offered : Vm.Offered vm name signature above index) : Vm.Offered vm name signature (owner :: above) index

namespace Vm

variable {vm : Vm} {c : ClassId} {owners : List ClassId} {name signature : String} {index : Nat}

theorem declaredAt {owner : ClassId} :
    vm.methods.findIdx? (fun m => m.declaredIn = owner ∧ m.name = name ∧ m.signature = signature) =
        some index ↔
      (∃ info, vm.methods[index]? = some info ∧ info.Declares owner name signature) ∧
        ∀ j < index, ∀ other, vm.methods[j]? = some other → ¬ other.Declares owner name signature := by
  rw [List.findIdx?_eq_some_iff_getElem]
  constructor
  · rintro ⟨below, holds, first⟩
    obtain ⟨is, named, signed⟩ := of_decide_eq_true holds
    refine ⟨⟨_, List.getElem?_eq_getElem below, is, named, signed⟩, fun j before other there declares => ?_⟩
    obtain ⟨_, rfl⟩ := List.getElem?_eq_some_iff.mp there
    exact first j before (decide_eq_true ⟨declares.owner, declares.name, declares.signature⟩)
  · rintro ⟨⟨info, there, declares⟩, first⟩
    obtain ⟨below, rfl⟩ := List.getElem?_eq_some_iff.mp there
    refine ⟨below, decide_eq_true ⟨declares.owner, declares.name, declares.signature⟩, fun j before holds => ?_⟩
    obtain ⟨is, named, signed⟩ := of_decide_eq_true holds
    exact first j before _ (List.getElem?_eq_getElem _) ⟨is, named, signed⟩

theorem declaredNowhere {owner : ClassId} :
    vm.methods.findIdx? (fun m => m.declaredIn = owner ∧ m.name = name ∧ m.signature = signature) = none ↔
      ∀ info ∈ vm.methods, ¬ info.Declares owner name signature := by
  rw [List.findIdx?_eq_none_iff]
  refine forall₂_congr fun info _ => ⟨fun holds declares => ?_, fun absent => decide_eq_false fun holds => ?_⟩
  · exact of_decide_eq_false holds ⟨declares.owner, declares.name, declares.signature⟩
  · exact absent ⟨holds.1, holds.2.1, holds.2.2⟩

theorem offeredIff :
    (owners.findSome? fun owner => vm.methods.findIdx? fun m =>
      m.declaredIn = owner ∧ m.name = name ∧ m.signature = signature) = some index ↔
      vm.Offered name signature owners index := by
  induction owners with
  | nil => exact ⟨nofun, nofun⟩
  | cons owner owners ih =>
    rw [List.findSome?_cons]
    split
    next j found =>
      obtain ⟨⟨info, there, declares⟩, first⟩ := declaredAt.mp found
      constructor
      · rintro ⟨⟩
        exact .here there declares first
      · intro offered
        cases offered with
        | here there' declares' first' =>
          rw [← found]
          exact declaredAt.mpr ⟨⟨_, there', declares'⟩, first'⟩
        | above absent => exact absurd declares (absent _ (List.mem_of_getElem? there))
    next missing =>
      have absent := declaredNowhere.mp missing
      rw [ih]
      constructor
      · exact .above absent
      · intro offered
        cases offered with
        | here there declares => exact absurd declares (absent _ (List.mem_of_getElem? there))
        | above _ offered => exact offered

theorem resolveIff : vm.resolve c name signature = some index ↔
    vm.Offered name signature (vm.classes.lineage c) index := offeredIff

theorem resolveNoneIff : vm.resolve c name signature = none ↔
    ∀ owner ∈ vm.classes.lineage c, ∀ info ∈ vm.methods, ¬ info.Declares owner name signature := by
  unfold resolve
  rw [List.findSome?_eq_none_iff]
  exact forall₂_congr fun _ _ => declaredNowhere

theorem Offered.declared (offered : vm.Offered name signature owners index) :
    ∃ info, vm.methods[index]? = some info ∧ info.declaredIn ∈ owners := by
  induction offered with
  | here there declares => exact ⟨_, there, declares.owner ▸ List.mem_cons_self⟩
  | above _ _ ih =>
    obtain ⟨info, there, inherits⟩ := ih
    exact ⟨info, there, List.mem_cons_of_mem _ inherits⟩

theorem resolveOwn (there : ∃ info, vm.methods[index]? = some info ∧ info.Declares c name signature)
    (only : ∀ (j : Nat) info, vm.methods[j]? = some info → info.Declares c name signature → j = index) :
    vm.resolve c name signature = some index := by
  obtain ⟨info, found, declares⟩ := there
  obtain ⟨above, lineage⟩ := vm.classes.lineageHead c
  rw [resolveIff, lineage]
  exact .here found declares fun j before other there again =>
    Nat.ne_of_lt before (only j other there again)

end Vm
end Detour
