import Detour.Proofs.Vm.Room

/-! The moving collector keeps the heap as it is but for names. Whatever a runtime is asked to do, its handles
and arrays lead to live objects only, and they go on leading to the same ones. A collection gives every object
a reference that none had before, and a reference that has gone stale stays so. -/
namespace Detour

def Obj.outline : Obj → Obj
  | array elements => array (elements.map fun _ => none)
  | o => o

theorem Obj.outlineClass (o : Obj) : o.outline.class? = o.class? := by
  cases o <;> rfl

theorem Obj.moveByOutline (distance : Nat) (o : Obj) : (o.moveBy distance).outline = o.outline := by
  cases o with
  | array es => simp [moveBy, outline, Function.comp_def]
  | _ => rfl

def Obj.rename (f : Ref → Ref) : Obj → Obj
  | array elements => array (elements.map (·.map f))
  | o => o

def HandleTable.rename (f : Ref → Ref) (t : HandleTable) : HandleTable :=
  { t with live := t.live.map fun e => { e with target := e.target.map f } }

namespace Heap

variable {h after : Heap} {k i : Nat} {x : Option Nat} {t : Option Ref} {o : Obj} {r : Ref}

def Known (h : Heap) (t : Option Ref) : Prop := ∀ r, t = some r → h.isLive r = true

theorem knownIff : h.Known t ↔ ∃ x, h.Denotes t x := by
  cases t with
  | none => exact ⟨fun _ => ⟨none, trivial⟩, fun _ r null => by cases null⟩
  | some r =>
    refine ⟨fun known => ?_, ?_⟩
    · obtain ⟨k, denotes⟩ := denotesLive.mp (known r rfl)
      exact ⟨some k, denotes⟩
    · rintro ⟨x, denotes⟩ s same
      cases same
      obtain ⟨k, rfl, _⟩ := denotesSome.mp denotes
      exact denotesLive.mpr ⟨k, denotes⟩

theorem relocatedKnown (moved : h.relocate? = some after) (known : h.Known t) :
    after.Known (t.bind (Ref.moveBy? h.objects.size)) := by
  obtain ⟨x, denotes⟩ := knownIff.mp known
  exact knownIff.mpr ⟨x, relocatedDenotes moved denotes⟩

theorem pushedKnown (pushed : h.push? o = some (r, after)) (known : h.Known t) : after.Known t := by
  obtain ⟨x, denotes⟩ := knownIff.mp known
  exact knownIff.mpr ⟨x, pushedDenotes pushed denotes⟩

theorem setKnown (known : h.Known t) : (h.set r o).Known t := by
  obtain ⟨x, denotes⟩ := knownIff.mp known
  exact knownIff.mpr ⟨x, setDenotes denotes⟩

def Element (h : Heap) (k i : Nat) (x : Option Nat) : Prop :=
  ∃ es t, h.objects[k]? = some (.array es) ∧ es[i]? = some t ∧ h.Denotes t x

theorem relocatedElement (moved : h.relocate? = some after) (element : h.Element k i x) : after.Element k i x := by
  obtain ⟨es, t, at_, there, denotes⟩ := element
  refine ⟨_, _, relocatedAt moved at_, ?_, relocatedDenotes moved denotes⟩
  rw [List.getElem?_map, there]
  rfl

theorem pushedElement (pushed : h.push? o = some (r, after)) (element : h.Element k i x) : after.Element k i x := by
  obtain ⟨es, t, at_, there, denotes⟩ := element
  exact ⟨es, t, pushedOld pushed at_, there, pushedDenotes pushed denotes⟩

theorem storedElement {j index : Nat} {es : List (Option Ref)} {value : Option Ref}
    (denotes : h.Denotes (some r) (some j)) (array : h.get? r = some (.array es))
    (apart : ¬ (j = k ∧ index = i)) (element : h.Element k i x) :
    (h.set r (.array (es.set index value))).Element k i x := by
  obtain ⟨fs, t, at_, there, leads⟩ := element
  rcases eq_or_ne j k with rfl | other
  · obtain rfl : fs = es := by
      rw [denotesGet denotes, at_] at array
      exact Obj.array.inj (Option.some.inj array)
    refine ⟨_, t, setThere denotes, ?_, setDenotes leads⟩
    rw [List.getElem?_set_ne fun same => apart ⟨rfl, same⟩, there]
  · exact ⟨fs, t, (setElsewhere denotes other).trans at_, there, setDenotes leads⟩

end Heap

namespace Vm

variable {free : Handle → Prop} {still : Nat → Prop} {vm x : Vm}

theorem Change.outline {k : Nat} {o : Obj} (change : Change free still vm x) (at_ : vm.heap.objects[k]? = some o) :
    ∃ p, x.heap.objects[k]? = some p ∧ p.outline = o.outline := by
  cases change with
  | relocated moved => exact ⟨_, Heap.relocatedAt moved at_, o.moveByOutline _⟩
  | allocated pushed => exact ⟨o, Heap.pushedOld pushed at_, rfl⟩
  | @stored array j index es value denotes array_ =>
    rcases eq_or_ne j k with rfl | other
    · obtain rfl : o = .array es := Option.some.inj (at_.symm.trans ((Heap.denotesGet denotes).symm.trans array_))
      exact ⟨_, Heap.setThere denotes, by simp [Obj.outline, List.map_const']⟩
    · exact ⟨o, (Heap.setElsewhere denotes other).trans at_, rfl⟩
  | _ => exact ⟨o, at_, rfl⟩

theorem Changes.outline {k : Nat} {o : Obj} (changes : Changes free still vm x)
    (at_ : vm.heap.objects[k]? = some o) : ∃ p, x.heap.objects[k]? = some p ∧ p.outline = o.outline := by
  induction changes with
  | refl => exact ⟨o, at_, rfl⟩
  | tail _ change ih =>
    obtain ⟨p, there, same⟩ := ih
    obtain ⟨q, then_, also⟩ := change.outline there
    exact ⟨q, then_, also.trans same⟩

theorem Changes.element {k i : Nat} {y : Option Nat} (changes : Changes free still vm x) (kept : still k)
    (element : vm.heap.Element k i y) : x.heap.Element k i y := by
  induction changes with
  | refl => exact element
  | tail _ change ih =>
    cases change with
    | relocated moved => exact Heap.relocatedElement moved ih
    | allocated pushed => exact Heap.pushedElement pushed ih
    | stored denotes array open_ =>
      exact Heap.storedElement denotes array (fun ⟨same, _⟩ => open_ (same ▸ kept)) ih
    | _ => exact ih

def HeldAs (vm : Vm) (h : Handle) (kind : HandleKind) (y : Option Nat) : Prop :=
  ∃ e, vm.handles.find? h = some e ∧ e.kind = kind ∧ vm.heap.Denotes e.target y

theorem Changes.heldAs {h : Handle} {kind : HandleKind} {y : Option Nat} (changes : Changes free still vm x)
    (kept : ¬ free h) (issued : h.id < vm.handles.next) (held : vm.HeldAs h kind y) : x.HeldAs h kind y := by
  induction changes with
  | refl => exact held
  | tail earlier change ih =>
    obtain ⟨e, found, known, denotes⟩ := ih
    have later := Nat.lt_of_lt_of_le issued (Changes.issued earlier)
    obtain ⟨f, there, same, leads⟩ := change.entry kept later found
    exact ⟨f, there, same.trans known, leads y denotes⟩

/-! ## No dangling reference -/

structure Closed (vm : Vm) : Prop where
  handles : ∀ e ∈ vm.handles.live, e.handle.id < vm.handles.next ∧ vm.heap.Known e.target
  elements : ∀ es, Obj.array es ∈ vm.heap.objects → ∀ t ∈ es, vm.heap.Known t

structure Ages (vm x : Vm) : Prop where
  closed : vm.Closed → x.Closed
  base : vm.heap.base ≤ x.heap.base
  next : vm.heap.next ≤ x.heap.next

theorem Ages.refl : Ages vm vm := ⟨id, Nat.le_refl _, Nat.le_refl _⟩

theorem Ages.trans {y : Vm} (first : Ages vm x) (rest : Ages x y) : Ages vm y :=
  ⟨rest.closed ∘ first.closed, Nat.le_trans first.base rest.base, Nat.le_trans first.next rest.next⟩

theorem relocatedAges {heap : Heap} (moved : vm.heap.relocate? = some heap) :
    Ages vm { vm with
      heap
      handles := vm.handles.moveBy vm.heap.objects.size
      collections := vm.collections + 1 } := by
  obtain ⟨base, objects, _⟩ := Heap.relocatedBase moved
  refine ⟨fun closed => ⟨fun e mem => ?_, fun es mem t among => ?_⟩, by simp [base], by simp [Heap.next, base, objects]⟩
  · obtain ⟨old, live, rfl⟩ := List.mem_map.mp mem
    obtain ⟨issued, known⟩ := closed.handles old live
    exact ⟨issued, Heap.relocatedKnown moved known⟩
  · obtain ⟨o, there, same⟩ := Array.mem_map.mp (objects ▸ mem)
    cases o with
    | array fs =>
      cases same
      obtain ⟨old, former, rfl⟩ := List.mem_map.mp among
      exact Heap.relocatedKnown moved (closed.elements fs there old former)
    | _ => cases same

theorem pushedAges {o : Obj} {r : Ref} {heap : Heap} (pushed : vm.heap.push? o = some (r, heap))
    (bare : ∀ es, o = .array es → ∀ t ∈ es, t = none) : Ages vm { vm with heap } := by
  obtain ⟨_, base, objects⟩ := Heap.pushedAt pushed
  refine ⟨fun closed => ⟨fun e live => (closed.handles e live).imp_right (Heap.pushedKnown pushed),
    fun es mem t among => ?_⟩, by simp [base], by simp [Heap.next, base, objects]⟩
  obtain old | rfl := Array.mem_push.mp (objects ▸ mem)
  · exact Heap.pushedKnown pushed (closed.elements es old t among)
  · rw [bare es rfl t among]
    exact Heap.knownIff.mpr ⟨none, trivial⟩

theorem storedAges {array : Ref} {index : Nat} {es : List (Option Ref)} {value : Option Ref}
    (at_ : vm.heap.get? array = some (.array es)) (known : vm.heap.Known value) :
    Ages vm { vm with heap := vm.heap.set array (.array (es.set index value)) } := by
  obtain ⟨k, _, there⟩ := Heap.getDenotes at_
  refine ⟨fun closed => ⟨fun e live => (closed.handles e live).imp_right Heap.setKnown, fun fs mem t among => ?_⟩,
    Nat.le_refl _, by simp [Heap.next, Heap.set]⟩
  obtain old | same := Array.mem_or_eq_of_mem_setIfInBounds mem
  · exact Heap.setKnown (closed.elements fs old t among)
  · cases same
    obtain former | rfl := List.mem_or_eq_of_mem_set among
    · exact Heap.setKnown (closed.elements es (Array.mem_of_getElem? there) t former)
    · exact Heap.setKnown known

theorem pinnedAges (kind : HandleKind) {target : Option Ref} (known : vm.heap.Known target) :
    Ages vm { vm with handles := (vm.handles.create kind target).2 } := by
  refine ⟨fun closed => ⟨fun e mem => ?_, closed.elements⟩, Nat.le_refl _, Nat.le_refl _⟩
  obtain rfl | old := List.mem_cons.mp mem
  · exact ⟨Nat.lt_succ_self _, known⟩
  · exact (closed.handles e old).imp_left Nat.lt_succ_of_lt

theorem releasedAges (h : Handle) : Ages vm { vm with handles := vm.handles.release h } :=
  ⟨fun closed => ⟨fun e mem => closed.handles e (List.mem_filter.mp mem).1, closed.elements⟩,
    Nat.le_refl _, Nat.le_refl _⟩

theorem collectAges : Step.Ends (fun _ => True) collectIfMoving vm fun _ x => Ages vm x := by
  unfold collectIfMoving
  simp only [Step.endsBind, Step.endsGet]
  cases vm.moving with
  | false => exact .refl
  | true =>
    simp only [if_true, collect, Step.endsBind, Step.endsGet, Step.endsRequire, Step.endsSet]
    exact ⟨fun heap moved => relocatedAges moved, fun _ => trivial⟩

theorem allocateAges {o : Obj} (bare : ∀ es, o = .array es → ∀ t ∈ es, t = none) :
    Step.Ends (fun _ => True) (allocate o) vm fun _ x => Ages vm x := by
  unfold allocate
  simp only [Step.endsBind, Step.endsGet, Step.endsRequire, Step.endsSet, Step.endsPure]
  refine collectAges.weaken fun _ x ages => ⟨fun made pushed => ?_, fun _ => trivial⟩
  exact ages.trans (pushedAges pushed bare)

theorem reclassedAges (classes : ClassTable) : Ages vm { vm with classes } :=
  ⟨fun closed => ⟨closed.handles, closed.elements⟩, Nat.le_refl _, Nat.le_refl _⟩

theorem initClassAges (c : ClassId) : Action.Ends (fun _ => True) (initClass c) vm fun _ x => Ages vm x := by
  unfold initClass classInfo
  rw [Action.endsLiftedBind]
  simp only [Step.endsBind, Step.endsGet, Step.endsRequire]
  refine ⟨fun info _ => ?_, fun _ => trivial⟩
  split
  next =>
    refine Action.endsLiftedBind.mpr (collectAges.weaken fun _ x ages => ?_)
    have started := ages.trans (reclassedAges (x.classes.modify c fun i => { i with initCount := i.initCount + 1 }))
    simp only [Action.endsBind, Action.endsModify]
    refine ⟨fun _ _ => ?_, by simp⟩
    split
    next =>
      simp only [Action.endsBind, Action.endsThrow]
      exact ⟨by simp, fun e _ => started⟩
    next => exact started.trans (reclassedAges _)
  next => exact .refl

theorem setElementKnown (array : Ref) (index : Nat) (value : Option Ref) :
    Step.Ends (fun _ => True) (setElement array index value) vm fun _ _ => vm.heap.Known value := by
  unfold setElement
  cases value with
  | none => exact Step.endsAny.weaken fun _ _ _ r null => by cases null
  | some r =>
    refine Step.endsBind.mpr ((objectEnds fun _ => trivial).weaken fun o x looked => ?_)
    refine Step.endsAny.weaken fun _ _ _ s same => ?_
    cases same
    rw [Heap.isLive, looked.2]
    rfl

theorem setElementStores (array : Ref) (index : Nat) (value : Option Ref) :
    Step.Ends (fun _ => True) (setElement array index value) vm fun _ x =>
      (∃ es, vm.heap.get? array = some (.array es) ∧
        x = { vm with heap := vm.heap.set array (.array (es.set index value)) }) ∧ vm.heap.Known value :=
  (setElementEnds (fun _ => trivial) (fun _ _ _ => trivial) (fun _ _ _ => trivial) fun _ _ _ => trivial).both
    (setElementKnown array index value)

/-! ## Runs -/

inductive Deed
  | make (o : Obj) (plain : ∀ es, o ≠ .array es)
  | makeArray (length : Nat)
  | ready (c : ClassId)
  | pin (kind : HandleKind) (target : Option Ref)
  | release (h : Handle)
  | store (array : Ref) (index : Nat) (value : Option Ref)
  | switch (moving : Bool)

namespace Deed

def step : Deed → Step Vm Unit
  | make o _ => do let _ ← allocate o
  | makeArray length => do let _ ← allocate (.array (List.replicate length none))
  | ready c => do let _ ← (initClass c).attempt
  | pin kind target => do let _ ← createHandle kind target
  | release h => releaseHandle h
  | store array index value => setElement array index value
  | switch moving => modify fun vm => { vm with moving }

def on (d : Deed) (vm : Vm) : Vm :=
  match d.step vm with
  | .ok (_, x) => x
  | .error _ => vm

def Stores (vm : Vm) (k i : Nat) : Deed → Prop
  | store array index _ => vm.heap.Denotes (some array) (some k) ∧ index = i
  | _ => False

theorem onEnds {d : Deed} {P : Vm → Prop} (unchanged : P vm)
    (ends : Step.Ends (fun _ => True) d.step vm fun _ x => P x) : P (d.on vm) := by
  unfold on
  split
  next _ x run => exact ends.result run
  next => exact unchanged

theorem onSure {d : Deed} {P : Vm → Prop} (ends : Step.Ends (fun _ => False) d.step vm fun _ x => P x) :
    P (d.on vm) := by
  obtain ⟨_, x, run, holds⟩ := ends.sure
  unfold on
  rw [run]
  exact holds

theorem ages (d : Deed) (vm : Vm) : Ages vm (d.on vm) := by
  refine onEnds .refl ?_
  -- A deed that faults leaves the machine as it is; else its own lemma says what it leaves.
  cases d with
  | make o plain =>
    exact Step.endsBind.mpr ((allocateAges fun es array => absurd array (plain es)).weaken fun _ _ => id)
  | makeArray length =>
    refine Step.endsBind.mpr ((allocateAges fun es array t among => ?_).weaken fun _ _ => id)
    cases array
    exact (List.mem_replicate.mp among).2
  | ready c => exact Step.endsBind.mpr ((initClassAges c).weaken fun _ _ => id)
  | pin kind target =>
    refine Step.endsBind.mpr ((createHandleEnds fun _ _ _ => trivial).weaken fun _ x made => ?_)
    obtain ⟨-, rfl, known⟩ := made
    exact pinnedAges kind (Heap.knownIff.mpr known)
  | release h =>
    refine (releaseHandleEnds fun _ => trivial).weaken fun _ x same => ?_
    rw [same]
    exact releasedAges h
  | store array index value =>
    refine (setElementStores array index value).weaken fun _ x stored => ?_
    obtain ⟨⟨es, at_, rfl⟩, known⟩ := stored
    exact storedAges at_ known
  | switch moving => exact ⟨fun closed => ⟨closed.handles, closed.elements⟩, Nat.le_refl _, Nat.le_refl _⟩

theorem changes (d : Deed) (vm : Vm) :
    Changes (fun h => d = .release h) (fun k => ∀ i, ¬ d.Stores vm k i) vm (d.on vm) := by
  refine onEnds .refl ?_
  cases d with
  | make o plain => exact Step.endsBind.mpr ((allocateEnds trivial o).weaken fun _ _ made => made.calm.changes)
  | makeArray length => exact Step.endsBind.mpr ((allocateEnds trivial _).weaken fun _ _ made => made.calm.changes)
  | ready c =>
    exact Step.endsBind.mpr ((initClassEnds trivial fun _ => trivial).weaken fun _ _ done => Calm.changes done.1)
  | pin kind target =>
    refine Step.endsBind.mpr ((createHandleEnds fun _ _ _ => trivial).weaken fun _ x made => ?_)
    obtain ⟨-, rfl, -⟩ := made
    exact .single (.pinned kind target)
  | release h =>
    refine (releaseHandleEnds fun _ => trivial).weaken fun _ x same => ?_
    rw [same]
    exact .single (.released rfl)
  | store array index value =>
    refine (setElementStores array index value).weaken fun _ x stored => ?_
    obtain ⟨⟨es, at_, rfl⟩, -⟩ := stored
    obtain ⟨k, denotes, -⟩ := Heap.getDenotes at_
    exact .single (.stored denotes at_ fun never => never index ⟨denotes, rfl⟩)
  | switch moving => exact .single (.switched moving)

theorem element {d : Deed} {k i : Nat} {y : Option Nat} (apart : ¬ d.Stores vm k i)
    (there : vm.heap.Element k i y) : (d.on vm).heap.Element k i y := by
  cases d with
  | store array index value =>
    refine onEnds (P := fun x => x.heap.Element k i y) there ?_
    refine (setElementStores array index value).weaken fun _ x stored => ?_
    obtain ⟨⟨es, at_, rfl⟩, -⟩ := stored
    obtain ⟨j, denotes, -⟩ := Heap.getDenotes at_
    refine Heap.storedElement denotes at_ (fun same => apart ?_) there
    exact ⟨same.1 ▸ denotes, same.2⟩
  | _ => exact (changes _ vm).element (fun _ => id) there

theorem pins {target : Option Ref} {y : Option Nat} (kind : HandleKind) (denotes : vm.heap.Denotes target y) :
    ((pin kind target).on vm).HeldAs ⟨vm.handles.next⟩ kind y := by
  refine onSure (P := fun x => x.HeldAs ⟨vm.handles.next⟩ kind y) ?_
  refine Step.endsBind.mpr ((createHandleEnds fun r same => ?_).weaken fun _ x made => ?_)
  · subst same
    exact Heap.denotesFound denotes
  · obtain ⟨-, rfl, -⟩ := made
    exact ⟨_, List.find?_cons_of_pos (decide_eq_true rfl), rfl, denotes⟩

theorem stores {array : Ref} {k index : Nat} {value : Option Ref} {old y : Option Nat}
    (denotes : vm.heap.Denotes (some array) (some k)) (element : vm.heap.Element k index old)
    (given : vm.heap.Denotes value y) : ((store array index value).on vm).heap.Element k index y := by
  obtain ⟨es, t, at_, there, -⟩ := element
  have found : vm.heap.get? array = some (.array es) := (Heap.denotesGet denotes).trans at_
  obtain ⟨inside, -⟩ := List.getElem?_eq_some_iff.mp there
  refine onSure (P := fun x => x.heap.Element k index y) ?_
  refine (setElementEnds ?_ ?_ ?_ ?_).weaken fun _ x stored => ?_
  · simp [found]
  · intro o same plain
    exact plain es (Option.some.inj (same.symm.trans found))
  · rintro r rfl
    exact Heap.denotesFound given
  · intro fs same outside
    cases found.symm.trans same
    omega
  · obtain ⟨fs, same, rfl⟩ := stored
    cases found.symm.trans same
    exact ⟨_, value, Heap.setThere denotes, by simp [inside], Heap.setDenotes given⟩

end Deed

def after (deeds : List Deed) (vm : Vm) : Vm := deeds.foldl (fun vm d => d.on vm) vm

theorem afterAges (deeds : List Deed) (vm : Vm) : Ages vm (after deeds vm) := by
  induction deeds generalizing vm with
  | nil => exact .refl
  | cons d deeds ih => exact (d.ages vm).trans (ih (d.on vm))

theorem afterChanges (deeds : List Deed) (vm : Vm) :
    Changes (fun h => .release h ∈ deeds) (fun _ => False) vm (after deeds vm) := by
  induction deeds generalizing vm with
  | nil => exact .refl
  | cons d deeds ih =>
    have first : Changes (fun h => .release h ∈ d :: deeds) (fun _ => False) vm (d.on vm) :=
      (d.changes vm).widen (fun h same => by simp [same]) fun _ => False.elim
    exact first.trans ((ih (d.on vm)).widen (fun h among => List.mem_cons_of_mem d among) fun _ => id)

def Untouched (k i : Nat) : List Deed → Vm → Prop
  | [], _ => True
  | d :: deeds, vm => ¬ d.Stores vm k i ∧ Untouched k i deeds (d.on vm)

theorem afterElement {deeds : List Deed} {k i : Nat} {y : Option Nat} (untouched : Untouched k i deeds vm)
    (element : vm.heap.Element k i y) : (after deeds vm).heap.Element k i y := by
  induction deeds generalizing vm with
  | nil => exact element
  | cons d deeds ih => exact ih untouched.2 (Deed.element untouched.1 element)

def Used (start : Vm) (deeds : List Deed) (r : Ref) : Prop :=
  ∃ early, early <+: deeds ∧ (after early start).heap.isLive r = true

theorem usedBelow {start : Vm} {deeds : List Deed} {r : Ref} (used : Used start deeds r) :
    r.toNat < (after deeds start).heap.next := by
  obtain ⟨early, ⟨rest, rfl⟩, live⟩ := used
  have ages := afterAges rest (after early start)
  rw [after, List.foldl_append]
  exact Nat.lt_of_lt_of_le (Heap.liveIff.mp live).2 ages.next

end Vm

/-! ## Collections -/

namespace Heap

variable {h after : Heap} {k : Nat} {t : Option Ref} {r s : Ref}

def moved (distance : Nat) (r : Ref) : Ref := (r.moveBy? distance).getD r

theorem movedKnown (relocated : h.relocate? = some after) (known : h.Known t) :
    t.bind (Ref.moveBy? h.objects.size) = t.map (moved h.objects.size) := by
  obtain ⟨_, _, fits⟩ := relocatedBase relocated
  cases t with
  | none => rfl
  | some r =>
    have below := (liveIff.mp (known r rfl)).2
    unfold next at below
    obtain ⟨s, found, -⟩ := @Ref.moveByToNat r h.objects.size (by omega)
    simp [moved, found]

theorem movedDenotes (relocated : h.relocate? = some after) (denotes : h.Denotes (some r) (some k)) :
    after.Denotes (some (moved h.objects.size r)) (some k) := by
  have goes := relocatedDenotes relocated denotes
  rwa [movedKnown relocated (knownIff.mpr ⟨_, denotes⟩)] at goes

theorem movedInjective (relocated : h.relocate? = some after) (liveR : h.isLive r = true)
    (liveS : h.isLive s = true) (same : moved h.objects.size r = moved h.objects.size s) : r = s := by
  obtain ⟨j, denotesR⟩ := denotesLive.mp liveR
  obtain ⟨k, denotesS⟩ := denotesLive.mp liveS
  have both := movedDenotes relocated denotesS
  rw [← same] at both
  cases denotesOne (movedDenotes relocated denotesR) both
  exact Option.some.inj (denotesSame denotesR denotesS)

theorem movedFresh (relocated : h.relocate? = some after) (live : h.isLive r = true) :
    h.next ≤ (moved h.objects.size r).toNat := by
  obtain ⟨k, denotes⟩ := denotesLive.mp live
  obtain ⟨at_, -⟩ := movedDenotes relocated denotes
  have base := (relocatedBase relocated).1
  unfold next
  omega

theorem denotesBelow (positive : 0 < h.base) (fits : h.next ≤ UInt32.size) (below : k < h.objects.size) :
    ∃ r, h.Denotes (some r) (some k) := by
  unfold next at fits
  obtain ⟨r, -, at_⟩ := Ref.ofNatInside (n := h.base + k) (by omega) (by omega)
  exact ⟨r, at_, below⟩

theorem movedLive (relocated : h.relocate? = some after) (positive : 0 < h.base) :
    after.isLive s = true ↔ ∃ r, h.isLive r = true ∧ moved h.objects.size r = s := by
  obtain ⟨-, objects, fits⟩ := relocatedBase relocated
  constructor
  · intro live
    obtain ⟨k, denotes⟩ := denotesLive.mp live
    have below : k < h.objects.size := by simpa [objects] using denotes.2
    obtain ⟨r, former⟩ := denotesBelow positive (by unfold next; omega) below
    exact ⟨r, denotesLive.mpr ⟨k, former⟩, Option.some.inj (denotesSame (movedDenotes relocated former) denotes)⟩
  · rintro ⟨r, live, rfl⟩
    obtain ⟨k, denotes⟩ := denotesLive.mp live
    exact denotesLive.mpr ⟨k, movedDenotes relocated denotes⟩

theorem movedGet {o : Obj} (relocated : h.relocate? = some after)
    (elements : ∀ es, o = .array es → ∀ t ∈ es, h.Known t) (found : h.get? r = some o) :
    after.get? (moved h.objects.size r) = some (o.rename (moved h.objects.size)) := by
  obtain ⟨k, denotes, there⟩ := getDenotes found
  rw [denotesGet (movedDenotes relocated denotes), relocatedAt relocated there]
  cases o with
  | array es =>
    simp only [Obj.moveBy, Obj.rename, Option.some.injEq, Obj.array.injEq]
    exact List.map_congr_left fun t among => movedKnown relocated (elements es rfl t among)
  | _ => rfl

end Heap

namespace Vm

variable {vm x : Vm}

structure Relocation (vm moved : Vm) (rename : Ref → Ref) : Prop where
  injective : ∀ r s, vm.heap.isLive r = true → vm.heap.isLive s = true → rename r = rename s → r = s
  fresh : ∀ r, vm.heap.isLive r = true → vm.heap.next ≤ (rename r).toNat
  live : ∀ s, moved.heap.isLive s = true ↔ ∃ r, vm.heap.isLive r = true ∧ rename r = s
  objects : ∀ r o, vm.heap.get? r = some o → moved.heap.get? (rename r) = some (o.rename rename)
  numbers : ∀ r k, vm.heap.Denotes (some r) (some k) → moved.heap.Denotes (some (rename r)) (some k)
  handles : moved.handles = vm.handles.rename rename
  next : moved.heap.next = vm.heap.next + vm.heap.objects.size
  rest : moved = { vm with heap := moved.heap, handles := moved.handles, collections := vm.collections + 1 }

theorem collectRelocates (closed : vm.Closed) (positive : 0 < vm.heap.base)
    (fits : vm.heap.next + vm.heap.objects.size ≤ UInt32.size) :
    ∃ moved rename, collect vm = .ok ((), moved) ∧ Relocation vm moved rename := by
  obtain ⟨heap, relocated⟩ : ∃ heap, vm.heap.relocate? = some heap := ⟨_, if_pos fits⟩
  refine ⟨{ vm with
    heap
    handles := vm.handles.moveBy vm.heap.objects.size
    collections := vm.collections + 1 }, Heap.moved vm.heap.objects.size, ?_, ?_⟩
  · change (get >>= _ : Step Vm Unit) vm = _
    rw [Step.bindRun (a := vm) (x := vm) rfl, relocated]
    rfl
  -- Every address moves by the same distance, which a full address space would wrap.
  · refine ⟨fun _ _ => Heap.movedInjective relocated, fun _ => Heap.movedFresh relocated,
      fun _ => Heap.movedLive relocated positive, ?_, fun _ _ => Heap.movedDenotes relocated, ?_, ?_, rfl⟩
    · intro r o found
      obtain ⟨k, -, there⟩ := Heap.getDenotes found
      refine Heap.movedGet relocated (fun es array => ?_) found
      exact closed.elements es (Array.mem_of_getElem? (array ▸ there))
    · simp only [HandleTable.moveBy, HandleTable.rename]
      congr 1
      refine List.map_congr_left fun e live => ?_
      rw [Heap.movedKnown relocated (closed.handles e live).2]
    · obtain ⟨base, objects, -⟩ := Heap.relocatedBase relocated
      simp [Heap.next, base, objects]

/-! ## Enough references -/

theorem Deed.ample (room : vm.heap.Room 1) (d : Deed) : d.step vm ≠ .error .referencesExhausted := by
  have ends : Step.Ends (· ≠ .referencesExhausted) d.step vm fun _ _ => True := by
    cases d with
    | make o plain => exact Step.endsBind.mpr ((allocateRoom room o).weaken fun _ _ _ => trivial)
    | makeArray length => exact Step.endsBind.mpr ((allocateRoom room _).weaken fun _ _ _ => trivial)
    | ready c => exact Step.endsBind.mpr ((initClassRoom room (by simp)).weaken fun _ _ _ => trivial)
    | pin kind target => exact Step.endsBind.mpr ((createHandleEnds (by simp)).weaken fun _ _ _ => trivial)
    | release h => exact (releaseHandleEnds (by simp)).weaken fun _ _ _ => trivial
    | store array index value =>
      exact (setElementEnds (by simp) (by simp) (by simp) (by simp)).weaken fun _ _ _ => trivial
    | switch moving => trivial
  intro run
  simp [Step.Ends, run] at ends

/-! ## Whole runs -/

def fresh (arch : Architecture) (layout : Layout) (classes : ClassTable) (methods : List Method) : Vm :=
  { start arch layout with classes, methods }

theorem freshClosed (arch : Architecture) (layout : Layout) (classes : ClassTable) (methods : List Method) :
    (fresh arch layout classes methods).Closed :=
  ⟨fun _ live => absurd live List.not_mem_nil, fun _ mem => absurd mem (Array.not_mem_empty _)⟩

/-- What holds at a point `vm` of a run, and between it and a later one, `last`. -/
structure Preserved (origin : Vm) (early later : List Deed) (vm last : Vm) : Prop where
  closed : vm.Closed
  ample : vm.heap.next + vm.heap.objects.size < UInt32.size → ∀ d : Deed, d.step vm ≠ .error .referencesExhausted
  collects : vm.heap.next + vm.heap.objects.size ≤ UInt32.size →
    ∃ moved rename, collect vm = .ok ((), moved) ∧ Relocation vm moved rename ∧
      ∀ r, vm.heap.isLive r = true → ¬ Used origin early (rename r)
  pins : ∀ kind target y, vm.heap.Denotes target y → ((Deed.pin kind target).on vm).HeldAs ⟨vm.handles.next⟩ kind y
  held : ∀ h kind y, vm.HeldAs h kind y → .release h ∉ later → last.HeldAs h kind y
  stores : ∀ array index value k old y, vm.heap.Denotes (some array) (some k) → vm.heap.Element k index old →
    vm.heap.Denotes value y → ((Deed.store array index value).on vm).heap.Element k index y
  elements : ∀ k i y, vm.heap.Element k i y → Untouched k i later vm → last.heap.Element k i y
  objects : ∀ (k : Nat) (o : Obj), vm.heap.objects[k]? = some o →
    ∃ p, last.heap.objects[k]? = some p ∧ p.outline = o.outline ∧ p.class? = o.class?
  stale : ∀ r, Used origin early r → vm.heap.isLive r = false → last.heap.isLive r = false

theorem relocationPreserves (arch : Architecture) (layout : Layout) (classes : ClassTable) (methods : List Method)
    (early later : List Deed) :
    Preserved (fresh arch layout classes methods) early later (after early (fresh arch layout classes methods))
      (after later (after early (fresh arch layout classes methods))) := by
  have ages := afterAges early (fresh arch layout classes methods)
  have closed := ages.closed (freshClosed arch layout classes methods)
  generalize origin : fresh arch layout classes methods = start at ages closed ⊢
  generalize reached : after early start = vm at ages closed ⊢
  have changes := afterChanges later vm
  have positive : 0 < vm.heap.base := by
    have base : start.heap.base = 0x1000 := by rw [← origin]; rfl
    have := ages.base
    omega
  refine ⟨closed, fun fits => Deed.ample ⟨Nat.add_pos_left positive _, by omega⟩, ?_,
    fun kind _ _ => Deed.pins kind, ?_, ?_, ?_, ?_, ?_⟩
  · intro fits
    obtain ⟨moved, rename, run, relocation⟩ := collectRelocates closed positive fits
    refine ⟨moved, rename, run, relocation, fun r live used => ?_⟩
    have below := usedBelow used
    have above := relocation.fresh r live
    rw [reached] at below
    omega
  · intro h kind y held kept
    obtain ⟨e, found, denotes⟩ := held
    have issued := (closed.handles e (List.mem_of_find?_eq_some found)).1
    have own : e.handle = h := by simpa using List.find?_some found
    rw [own] at issued
    exact changes.heldAs kept issued ⟨e, found, denotes⟩
  · exact fun _ _ _ _ _ _ denotes element given => Deed.stores denotes element given
  · exact fun k i y element untouched => afterElement untouched element
  · intro k o at_
    obtain ⟨p, there, same⟩ := changes.outline at_
    exact ⟨p, there, same, by rw [← p.outlineClass, same, o.outlineClass]⟩
  · intro r used gone
    have below := usedBelow used
    rw [reached] at below
    have further := (afterAges later vm).base
    rw [Bool.eq_false_iff, ne_eq, Heap.liveIff] at gone ⊢
    omega

def shelf : Ref := (Ref.ofNat? 0x1001).get rfl

def sheltered : List Deed :=
  [.make (.text "x") nofun, .makeArray 1, .store shelf 0 (Ref.ofNat? 0x1000),
    .pin .globalHandle (some shelf), .switch true]

theorem sampleRelocated :
    let vm := after sheltered (fresh .arm Layout.compiled .standard [])
    let last := after [.make (.text "y") nofun, .release ⟨7⟩] vm
    last.HeldAs ⟨1⟩ .globalHandle (some 1) ∧ last.heap.Element 1 0 (some 0) ∧ last.heap.isLive shelf = false ∧
      last.handles.find? ⟨1⟩ = some ⟨⟨1⟩, .globalHandle, Ref.ofNat? 0x1003⟩ := by
  intro vm last
  have preserved := relocationPreserves .arm Layout.compiled .standard [] sheltered
    [.make (.text "y") nofun, .release ⟨7⟩]
  refine ⟨preserved.held ⟨1⟩ _ (some 1) ?_ (by simp), preserved.elements 1 0 (some 0) ?_ ⟨id, id, trivial⟩, ?_, ?_⟩
  · exact ⟨_, rfl, rfl, rfl, by decide⟩
  · exact ⟨_, _, rfl, rfl, rfl, by decide⟩
  · decide +kernel
  · decide +kernel

end Vm
end Detour
