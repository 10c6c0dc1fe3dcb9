import Detour.Proofs.Vm.Change

/-! What each operation of a managed runtime comes to: which faults it can end in, and how the runtime
stands afterwards. Operations that only look leave the runtime as it is. -/
namespace Detour

def Obj.class? : Obj → Option ClassId
  | .instance c => some c
  | .text _ => some .string
  | .boxed v => ClassId.wrapper? v.tag
  | .array _ => some .objectArray
  | .reflected _ => some .method
  | .throwable _ => some .throwable

theorem Obj.moveByClass (distance : Nat) (o : Obj) : (o.moveBy distance).class? = o.class? := by
  cases o <;> rfl

namespace Heap

variable {h after : Heap} {k : Nat} {c : ClassId} {o : Obj} {r : Ref}

def Classed (h : Heap) (k : Nat) (c : ClassId) : Prop := ∃ o, h.objects[k]? = some o ∧ o.class? = some c

theorem relocatedClassed (moved : h.relocate? = some after) (classed : h.Classed k c) : after.Classed k c := by
  obtain ⟨o, at_, known⟩ := classed
  exact ⟨_, relocatedAt moved at_, (o.moveByClass _).trans known⟩

theorem pushedClassed (pushed : h.push? o = some (r, after)) (classed : h.Classed k c) : after.Classed k c := by
  obtain ⟨old, at_, known⟩ := classed
  exact ⟨old, pushedOld pushed at_, known⟩

theorem storedClassed {j : Nat} {es fs : List (Option Ref)} (denotes : h.Denotes (some r) (some j))
    (array : h.get? r = some (.array es)) (classed : h.Classed k c) :
    (h.set r (.array fs)).Classed k c := by
  obtain ⟨old, at_, known⟩ := classed
  rcases eq_or_ne j k with rfl | apart
  · obtain rfl : old = .array es := Option.some.inj (at_.symm.trans ((denotesGet denotes).symm.trans array))
    exact ⟨.array fs, setThere denotes, known⟩
  · exact ⟨old, (setElsewhere denotes apart).trans at_, known⟩

end Heap

namespace Vm

variable {T : Fault → Prop} {vm after : Vm}

theorem Changes.classed {free : Handle → Prop} {still : Nat → Prop} {k : Nat} {c : ClassId}
    (changes : Changes free still vm after) (classed : vm.heap.Classed k c) : after.heap.Classed k c := by
  induction changes with
  | refl => exact classed
  | tail _ change ih =>
    cases change with
    | relocated moved => exact Heap.relocatedClassed moved ih
    | allocated pushed => exact Heap.pushedClassed pushed ih
    | stored denotes array => exact Heap.storedClassed denotes array ih
    | _ => exact ih

abbrev Calm : Vm → Vm → Prop := Changes (fun _ => False) fun _ => True

theorem Calm.changes {free : Handle → Prop} {still : Nat → Prop} (calm : Calm vm after) :
    Changes free still vm after :=
  Changes.widen calm (fun _ never => never.elim) fun _ _ => trivial

theorem Calm.holds {h x} (calm : Calm vm after) (held : vm.Held h x) : after.Held h x :=
  Changes.held calm id held

theorem Calm.keeps {k c} (calm : Calm vm after) (shows_ : vm.heap.Shows k c) : after.heap.Shows k c :=
  Changes.shows calm (by cases c <;> trivial) shows_

structure Collected (vm after : Vm) : Prop where
  calm : Calm vm after
  next : after.handles.next = vm.handles.next
  size : after.heap.objects.size = vm.heap.objects.size
  classes : after.classes = vm.classes

theorem collectEnds (full : T .referencesExhausted) :
    Step.Ends T collectIfMoving vm fun _ x => Collected vm x := by
  unfold collectIfMoving
  simp only [Step.endsBind, Step.endsGet]
  cases vm.moving with
  | false => exact ⟨.refl, rfl, rfl, rfl⟩
  | true =>
    simp only [if_true, collect, Step.endsBind, Step.endsGet, Step.endsRequire, Step.endsSet]
    refine ⟨fun heap moved => ?_, fun _ => full⟩
    exact ⟨.single (.relocated moved), rfl, by simp [(Heap.relocatedBase moved).2.1], rfl⟩

structure Allocated (vm : Vm) (o : Obj) (r : Ref) (after : Vm) : Prop where
  calm : Calm vm after
  denotes : after.heap.Denotes (some r) (some vm.heap.objects.size)
  object : after.heap.objects[vm.heap.objects.size]? = some o
  size : after.heap.objects.size = vm.heap.objects.size + 1
  next : after.handles.next = vm.handles.next
  classes : after.classes = vm.classes

theorem allocateEnds (full : T .referencesExhausted) (o : Obj) :
    Step.Ends T (allocate o) vm fun r x => Allocated vm o r x := by
  unfold allocate
  simp only [Step.endsBind, Step.endsGet, Step.endsRequire, Step.endsSet, Step.endsPure]
  refine (collectEnds full).weaken fun _ x collected => ⟨fun made pushed => ?_, fun _ => full⟩
  obtain ⟨r, heap⟩ := made
  obtain ⟨_, _, objects⟩ := Heap.pushedAt pushed
  have size := collected.size
  exact {
    calm := collected.calm.tail (.allocated pushed)
    denotes := size ▸ Heap.pushedNew pushed
    object := by simp [objects, ← size]
    size := by simp [objects, size]
    next := collected.next
    classes := collected.classes }

theorem boxEnds (full : T .referencesExhausted) (wrong : T .boxingNonPrimitive) (v : Value) :
    Step.Ends T (box v) vm fun r x => Allocated vm (.boxed v) r x := by
  unfold box
  split
  next => exact allocateEnds full _
  next => exact wrong

theorem boxPrimitive (full : T .referencesExhausted) {v : Value} (primitive : v.tag.isPrimitive) :
    Step.Ends T (box v) vm fun r x => Allocated vm (.boxed v) r x := by
  unfold box
  rw [if_pos primitive]
  exact allocateEnds full _

variable {r : Ref}

theorem objectEnds (stale : vm.heap.get? r = none → T (.staleReference r)) :
    Step.Ends T (object r) vm fun o x => x = vm ∧ vm.heap.get? r = some o := by
  simp only [object, Step.endsBind, Step.endsGet, Step.endsRequire]
  exact ⟨fun o found => ⟨trivial, found⟩, stale⟩

theorem classOfEnds (stale : vm.heap.get? r = none → T (.staleReference r))
    (wrong : T .boxingNonPrimitive) :
    Step.Ends T (classOf r) vm fun c x =>
      x = vm ∧ ∃ o, vm.heap.get? r = some o ∧ o.class? = some c := by
  unfold classOf
  refine Step.endsBind.mpr ((objectEnds stale).weaken fun o x ⟨same, found⟩ => ?_)
  subst same
  cases o with
  | boxed v =>
    simp only [Step.endsRequire]
    exact ⟨fun c known => ⟨trivial, _, found, known⟩, fun _ => wrong⟩
  | _ => exact ⟨rfl, _, found, rfl⟩

theorem classOfObject {o : Obj} {c : ClassId} (found : vm.heap.get? r = some o)
    (known : o.class? = some c) : Step.Ends T (classOf r) vm fun d x => x = vm ∧ d = c := by
  unfold classOf
  refine Step.endsBind.mpr ((objectEnds (by simp [found])).weaken fun p x looked => ?_)
  obtain ⟨rfl, again⟩ := looked
  cases found.symm.trans again
  cases o with
  | boxed v =>
    simp only [Step.endsRequire]
    exact ⟨fun d same => ⟨trivial, Option.some.inj (same.symm.trans known)⟩, fun none_ =>
      absurd (known.symm.trans none_) (Option.some_ne_none c)⟩
  | _ => exact ⟨rfl, Option.some.inj known⟩

open Step (Looks looksPure looksBind looksGet looksRequire looksFault)

theorem looksObject (r : Ref) : Looks (object r) :=
  looksBind looksGet fun _ => looksRequire _ _

theorem looksClassOf (r : Ref) : Looks (classOf r) := by
  refine looksBind (looksObject r) fun o => ?_
  cases o <;> first | exact looksPure _ | exact looksRequire _ _

theorem looksClassName (c : ClassId) : Looks (className c) :=
  looksBind looksGet fun _ => looksPure _

theorem looksTypeName (r : Ref) : Looks (typeName r) :=
  looksBind (looksClassOf r) looksClassName

theorem looksIsInstance (r : Ref) (c : ClassId) : Looks (isInstance r c) :=
  looksBind (looksClassOf r) fun _ => looksBind looksGet fun _ => looksPure _

theorem looksUnbox (r : Ref) : Looks (unbox r) := by
  refine looksBind (looksObject r) fun o => ?_
  cases o <;> exact looksPure _

theorem looksElements (r : Ref) : Looks (elements r) := by
  refine looksBind (looksObject r) fun o => ?_
  cases o <;> first | exact looksPure _ | exact looksFault _

theorem looksHandleTarget (h : Handle) : Looks (handleTarget h) :=
  looksBind looksGet fun _ => looksBind (looksRequire _ _) fun _ => looksPure _

theorem looksMethod (number : UInt64) : Looks (method number) :=
  looksBind looksGet fun _ => looksRequire _ _

theorem createHandleEnds {kind : HandleKind} {target : Option Ref}
    (stale : ∀ r, target = some r → vm.heap.get? r = none → T (.staleReference r)) :
    Step.Ends T (createHandle kind target) vm fun h x =>
      h = ⟨vm.handles.next⟩ ∧ x = { vm with handles := (vm.handles.create kind target).2 } ∧
        ∃ k, vm.heap.Denotes target k := by
  unfold createHandle
  cases target with
  | none => exact ⟨rfl, rfl, none, trivial⟩
  | some r =>
    refine Step.endsBind.mpr ((objectEnds (stale r rfl)).weaken fun o x ⟨same, found⟩ => ?_)
    subst same
    obtain ⟨k, denotes, _⟩ := Heap.getDenotes found
    exact ⟨rfl, rfl, some k, denotes⟩

theorem createHeld {kind : HandleKind} {target : Option Ref} {x}
    (denotes : vm.heap.Denotes target x) :
    Held { vm with handles := (vm.handles.create kind target).2 } ⟨vm.handles.next⟩ x := by
  refine ⟨Nat.lt_succ_self _, ⟨⟨vm.handles.next⟩, kind, target⟩, ?_, denotes⟩
  simp [HandleTable.find?, HandleTable.create]

theorem handleTargetEnds {h : Handle} (released : vm.handles.find? h = none → T (.releasedHandle h.id)) :
    Step.Ends T (handleTarget h) vm fun target x =>
      x = vm ∧ ∃ e, vm.handles.find? h = some e ∧ target = e.target := by
  simp only [handleTarget, Step.endsBind, Step.endsGet, Step.endsRequire, Step.endsPure]
  exact ⟨fun e found => ⟨trivial, e, found, rfl⟩, released⟩

theorem releaseHandleEnds {h : Handle}
    (released : vm.handles.find? h = none → T (.releasedHandle h.id)) :
    Step.Ends T (releaseHandle h) vm fun _ x =>
      x = { vm with handles := vm.handles.release h } := by
  unfold releaseHandle
  refine Step.endsBind.mpr ((handleTargetEnds released).weaken fun _ x ⟨same, _⟩ => ?_)
  subst same
  rfl

theorem elementsEnds {r : Ref} (stale : vm.heap.get? r = none → T (.staleReference r))
    (plain : ∀ o, vm.heap.get? r = some o → (∀ es, o ≠ .array es) → T (.notAnArray r)) :
    Step.Ends T (elements r) vm fun es x => x = vm ∧ vm.heap.get? r = some (.array es) := by
  unfold elements
  refine Step.endsBind.mpr ((objectEnds stale).weaken fun o x ⟨same, found⟩ => ?_)
  subst same
  cases o with
  | array es => exact ⟨rfl, found⟩
  | _ => exact plain _ found (by simp)

theorem unboxEnds {r : Ref} (stale : vm.heap.get? r = none → T (.staleReference r)) :
    Step.Ends T (unbox r) vm fun v x =>
      x = vm ∧ ∃ o, vm.heap.get? r = some o ∧ ∀ stored, v = some stored ↔ o = .boxed stored := by
  unfold unbox
  refine Step.endsBind.mpr ((objectEnds stale).weaken fun o x ⟨same, found⟩ => ?_)
  subst same
  cases o <;> exact ⟨rfl, _, found, by simp⟩

theorem setElementEnds {array : Ref} {index : Nat} {value : Option Ref}
    (gone : vm.heap.get? array = none → T (.staleReference array))
    (plain : ∀ o, vm.heap.get? array = some o → (∀ es, o ≠ .array es) → T (.notAnArray array))
    (stale : ∀ r, value = some r → vm.heap.get? r = none → T (.staleReference r))
    (outside : ∀ es, vm.heap.get? array = some (.array es) → es.length ≤ index →
      T (.elementIndex array index)) :
    Step.Ends T (setElement array index value) vm fun _ x =>
      ∃ es, vm.heap.get? array = some (.array es) ∧
        x = { vm with heap := vm.heap.set array (.array (es.set index value)) } := by
  have store : Step.Ends T (do
      let es ← elements array
      if index < es.length then
        modify fun vm => { vm with heap := vm.heap.set array (.array (es.set index value)) }
      else Step.fault (.elementIndex array index)) vm fun (_ : PUnit) x =>
        ∃ es, vm.heap.get? array = some (.array es) ∧
          x = { vm with heap := vm.heap.set array (.array (es.set index value)) } := by
    refine Step.endsBind.mpr ((elementsEnds gone plain).weaken fun es x ⟨same, found⟩ => ?_)
    subst same
    split
    next => exact ⟨es, found, rfl⟩
    next far => exact outside es found (Nat.le_of_not_lt far)
  unfold setElement
  cases value with
  | none => exact store
  | some r =>
    refine Step.endsBind.mpr ((objectEnds (stale r rfl)).weaken fun o x ⟨same, _⟩ => ?_)
    subst same
    exact store

theorem modifyGrows {t : ClassTable} {c : ClassId} {f : Class → Class}
    (keeps : ∀ i, i.initialized = true → (f i).initialized = true) : t.Grows (t.modify c f) := by
  intro d done
  simp only [ClassTable.isInitialized, ClassTable.get?, ClassTable.modify, List.getElem?_modify,
    Option.any_eq_true] at done ⊢
  obtain ⟨info, found, done⟩ := done
  rw [found]
  split
  next => exact ⟨f info, rfl, keeps info done⟩
  next => exact ⟨info, rfl, done⟩

theorem initClassEnds (full : T .referencesExhausted) {c : ClassId}
    (unknown : vm.classes.get? c = none → T .unknownClass) :
    Action.Ends T (initClass c) vm fun r x =>
      Calm vm x ∧ x.handles.next = vm.handles.next ∧
        (r = .ok () → x.classes.isInitialized c = true) := by
  unfold initClass classInfo
  rw [Action.endsLiftedBind]
  simp only [Step.endsBind, Step.endsGet, Step.endsRequire]
  refine ⟨fun info found => ?_, unknown⟩
  split
  next =>
    refine Action.endsLiftedBind.mpr ((collectEnds full).weaken fun _ x collected => ?_)
    have started : x.classes.Grows (x.classes.modify c fun i => { i with initCount := i.initCount + 1 }) :=
      modifyGrows fun _ done => done
    have calm := collected.calm.tail (.reclassed started)
    simp only [Action.endsBind, Action.endsModify]
    refine ⟨fun _ _ => ?_, by simp⟩
    split
    next =>
      simp only [Action.endsBind, Action.endsThrow]
      exact ⟨by simp, fun e _ => ⟨calm, collected.next, by simp⟩⟩
    next =>
      simp only [Action.endsModify]
      refine ⟨calm.tail (.reclassed (modifyGrows fun _ _ => rfl)), collected.next, fun _ => ?_⟩
      have there : x.classes.classes[c.index]? = some info := by rw [collected.classes]; exact found
      simp [ClassTable.isInitialized, ClassTable.get?, ClassTable.modify, there]
  next done =>
    refine ⟨.refl, rfl, fun _ => ?_⟩
    simpa [ClassTable.isInitialized, found] using done

end Vm
end Detour
