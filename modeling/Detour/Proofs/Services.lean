import Detour.Proofs.Leads

/-! The runtime's services as the interception layer uses them. Whatever they do to the runtime, they leave
the rest of the world alone, and none of them fails unless it was made to. -/
namespace Detour

variable {σ α ε : Type}

structure Served (free : Handle → Prop) (still : Nat → Prop) (w x : World σ) : Prop where
  vm : Vm.Changes free still w.vm x.vm
  rest : x = { w with vm := x.vm, disturbed := x.disturbed }

abbrev Calm : World σ → World σ → Prop := Served (fun _ => False) fun _ => True

namespace Served

variable {free more : Handle → Prop} {still less : Nat → Prop} {w x y : World σ}

theorem refl (w : World σ) : Served free still w w := ⟨.refl, rfl⟩

theorem trans (first : Served free still w x) (second : Served free still x y) :
    Served free still w y := by
  refine ⟨first.vm.trans second.vm, ?_⟩
  rw [second.rest, first.rest]

theorem widen (served : Served free still w x) (freer : ∀ h, free h → more h)
    (looser : ∀ k, less k → still k) : Served more less w x :=
  ⟨served.vm.widen freer looser, served.rest⟩

theorem step {vm : Vm} (change : Vm.Change free still w.vm vm) :
    Served free still w { w with vm } :=
  ⟨.single change, rfl⟩

theorem ofVm {vm : Vm} (changes : Vm.Changes free still w.vm vm) :
    Served free still w { w with vm } :=
  ⟨changes, rfl⟩

theorem leads {p : Rights σ} {n : Nat} {w₀ : World σ} (served : Served free still w x)
    (before : Leads p n w₀ w) (freer : ∀ h, free h → p.Free n w h)
    (looser : ∀ k, p.still k → still k) : Leads p n w₀ x := by
  have changed := before.changes (served.vm.widen freer looser)
  rw [served.rest]
  exact changed.moves (.disturbs x.disturbed)

theorem user (served : Served free still w x) : x.user = w.user := by rw [served.rest]

theorem lost (served : Served free still w x) : x.lost = w.lost := by rw [served.rest]

theorem records (served : Served free still w x) : x.records = w.records := by rw [served.rest]

theorem kept (served : Served free still w x) {h : Handle} : x.Kept h ↔ w.Kept h := by
  unfold World.Kept
  rw [served.records]

theorem pending (served : Served free still w x) : x.pending = w.pending := by rw [served.rest]

theorem chains (served : Served free still w x) : x.chains = w.chains := by rw [served.rest]

theorem methods (served : Served free still w x) : x.vm.methods = w.vm.methods :=
  served.vm.fixed.2.2

theorem arch (served : Served free still w x) : x.vm.arch = w.vm.arch := served.vm.fixed.1

theorem layout (served : Served free still w x) : x.vm.layout = w.vm.layout := served.vm.fixed.2.1

theorem descriptor (served : Served free still w x) (m : MethodAddress) :
    x.descriptor? m = w.descriptor? m := by
  cases m with
  | live index => simp [World.descriptor?, served.methods]
  | copy id => simp [World.descriptor?, served.records]

end Served

theorem Calm.served {free : Handle → Prop} {still : Nat → Prop} {w x : World σ} (calm : Calm w x) :
    Served free still w x :=
  Served.widen calm (fun _ never => never.elim) fun _ _ => trivial

theorem Calm.further {p : Rights σ} {n : Nat} {w₀ : World σ} (calm : Calm w x) (before : Leads p n w₀ w) :
    Leads p n w₀ x :=
  Served.leads calm before (fun _ never => never.elim) fun _ _ => trivial

namespace World

variable {T : Fault → Prop} {w : World σ}

theorem vmStepEnds {c : Step Vm α} {post : α → World σ → Prop} :
    Step.Ends T (vmStep c) w post ↔ Step.Ends T c w.vm fun a vm => post a { w with vm } :=
  Step.endsZoom

theorem vmStepRun {c : Step Vm α} {a : α} {vm : Vm} (run : c w.vm = .ok (a, vm)) :
    vmStep c w = .ok (a, { w with vm }) := by
  unfold vmStep Step.zoom
  rw [run]

theorem vmActionEnds {c : Action Vm ε α} {post : Except ε α → World σ → Prop} :
    Action.Ends T (vmAction c) w post ↔ Action.Ends T c w.vm fun r vm => post r { w with vm } :=
  Action.endsZoom

theorem serveEnds (s : Service) :
    Action.Ends T (serve s) w fun r x =>
      x = { w with disturbed := x.disturbed } ∧ (r ≠ .ok () → w.disturbed ≠ []) ∧
        (w.disturbed = [] → x = w) := by
  unfold serve
  simp only [Action.endsBind, Action.endsGet, Except.ok.injEq, forall_eq', reduceCtorEq,
    false_implies, implies_true, and_true]
  cases due : w.disturbed.lookup s with
  | none => simp
  | some left =>
    have disturbed : w.disturbed ≠ [] := by
      intro empty
      simp [empty] at due
    cases left <;> simp [disturbed]

structure Made (w : World σ) (o : Obj) (r : Ref) (x : World σ) : Prop where
  calm : Calm w x
  denotes : x.vm.heap.Denotes (some r) (some w.vm.heap.objects.size)
  object : x.vm.heap.objects[w.vm.heap.objects.size]? = some o
  size : x.vm.heap.objects.size = w.vm.heap.objects.size + 1
  next : x.vm.handles.next = w.vm.handles.next
  classes : x.vm.classes = w.vm.classes
  quiet : w.disturbed = [] → x.disturbed = []

structure Refused (w x : World σ) : Prop where
  same : x = { w with disturbed := x.disturbed }
  disturbed : w.disturbed ≠ []

theorem Refused.calm {x : World σ} (refused : Refused w x) : Calm w x := by
  have vm : x.vm = w.vm := by rw [refused.same]
  refine ⟨vm ▸ .refl, ?_⟩
  rw [vm]
  exact refused.same

theorem servedAllocation {s : Service} {step : Step Vm Ref} {o : Obj}
    (allocates : ∀ vm, Step.Ends T step vm fun r x => Vm.Allocated vm o r x) :
    Action.Ends T (do serve s; lift (vmStep step)) w fun r x =>
      (∀ a, r = .ok a → Made w o a x) ∧ ∀ e, r = .error e → Refused w x := by
  refine Action.endsBind.mpr ((serveEnds s).weaken fun r x ⟨same, refused, quiet⟩ =>
    ⟨fun _ passed => ?_, fun e failed => ⟨by simp, fun _ _ => ⟨same, refused (by simp [failed])⟩⟩⟩)
  refine Action.endsLift.mpr (vmStepEnds.mpr ((allocates x.vm).weaken fun a vm made =>
    ⟨fun b found => ?_, by simp⟩))
  cases found
  have vm : x.vm = w.vm := by rw [same]
  rw [vm] at made
  exact {
    calm := ⟨made.calm, by rw [same]⟩
    denotes := made.denotes
    object := made.object
    size := made.size
    next := made.next
    classes := made.classes
    quiet := fun none_ => by rw [quiet none_]; exact none_ }

theorem boxEnds (full : T .referencesExhausted) (wrong : T .boxingNonPrimitive) (v : Value) :
    Action.Ends T (box v) w fun r x =>
      (∀ a, r = .ok a → Made w (.boxed v) a x) ∧ ∀ e, r = .error e → Refused w x :=
  servedAllocation fun _ => Vm.boxEnds full wrong v

theorem boxPrimitive (full : T .referencesExhausted) {v : Value} (primitive : v.tag.isPrimitive) :
    Action.Ends T (box v) w fun r x =>
      (∀ a, r = .ok a → Made w (.boxed v) a x) ∧ ∀ e, r = .error e → Refused w x :=
  servedAllocation fun _ => Vm.boxPrimitive full primitive

theorem allocateArrayEnds (full : T .referencesExhausted) (length : Nat) :
    Action.Ends T (allocateArray length) w fun r x =>
      (∀ a, r = .ok a → Made w (.array (List.replicate length none)) a x) ∧
        ∀ e, r = .error e → Refused w x :=
  servedAllocation fun _ => Vm.allocateEnds full _

theorem initClassEnds (full : T .referencesExhausted) {c : ClassId}
    (unknown : w.vm.classes.get? c = none → T .unknownClass) :
    Action.Ends T (initClass c) w fun r x =>
      Calm w x ∧ x.vm.handles.next = w.vm.handles.next ∧
        (r = .ok () → x.vm.classes.isInitialized c = true) := by
  refine Action.endsBind.mpr ((serveEnds .init).weaken fun r x ⟨same, _⟩ => ?_)
  have vm : x.vm = w.vm := by rw [same]
  have calm : Calm w x := ⟨vm ▸ .refl, by rw [vm]; exact same⟩
  refine ⟨fun _ _ => ?_, fun _ _ => ⟨calm, by rw [vm], by simp⟩⟩
  refine vmActionEnds.mpr ((Vm.initClassEnds full (by rwa [vm])).weaken fun r vm' ⟨more, next, done⟩ => ?_)
  exact ⟨calm.trans (.ofVm more), next.trans (by rw [vm]), done⟩

def pinned (w : World σ) (kind : HandleKind) (target : Option Ref) : World σ :=
  { w with vm.handles := (w.vm.handles.create kind target).2 }

def unpinned (w : World σ) (h : Handle) : World σ :=
  { w with vm.handles := w.vm.handles.release h }

theorem pinnedCalm (kind : HandleKind) (target : Option Ref) : Calm w (w.pinned kind target) :=
  .step (.pinned kind target)

theorem pinnedHeld {kind : HandleKind} {target : Option Ref} {x} (denotes : w.vm.heap.Denotes target x) :
    (w.pinned kind target).vm.Held ⟨w.vm.handles.next⟩ x :=
  Vm.createHeld denotes

theorem createLocalEnds {target : Option Ref}
    (stale : ∀ r, target = some r → w.vm.heap.get? r = none → T (.staleReference r)) :
    Step.Ends T (createLocal target) w fun h x =>
      h = ⟨w.vm.handles.next⟩ ∧ x = w.pinned .localHandle target := by
  refine vmStepEnds.mpr ((Vm.createHandleEnds stale).weaken fun h vm ⟨new, same, _⟩ => ⟨new, ?_⟩)
  rw [same]
  rfl

theorem createGlobalEnds {target : Option Ref}
    (stale : ∀ r, target = some r → w.vm.heap.get? r = none → T (.staleReference r)) :
    Step.Ends T (createGlobal target) w fun h x =>
      h = ⟨w.vm.handles.next⟩ ∧ x = w.pinned .globalHandle target ∧ ∃ k, w.vm.heap.Denotes target k := by
  refine vmStepEnds.mpr ((Vm.createHandleEnds stale).weaken fun h vm ⟨new, same, live⟩ => ⟨new, ?_, live⟩)
  rw [same]
  rfl

theorem releaseHandleEnds {h : Handle}
    (released : w.vm.handles.find? h = none → T (.releasedHandle h.id)) :
    Step.Ends T (releaseHandle h) w fun _ x => x = w.unpinned h := by
  refine vmStepEnds.mpr ((Vm.releaseHandleEnds released).weaken fun _ vm same => ?_)
  rw [same]
  rfl

theorem createHeldEnds {target : Option Ref} {x} (denotes : w.vm.heap.Denotes target x) :
    Step.Ends T (createLocal target) w fun h y =>
      h = ⟨w.vm.handles.next⟩ ∧ y = w.pinned .localHandle target :=
  createLocalEnds fun _ same gone => absurd gone (Heap.denotesFound (same ▸ denotes))

theorem createStaleEnds {r : Ref} {post : Handle → World σ → Prop} (gone : w.vm.heap.get? r = none)
    (stale : T (.staleReference r)) : Step.Ends T (createLocal (some r)) w post := by
  refine vmStepEnds.mpr (Step.endsBind.mpr ((Vm.objectEnds fun _ => stale).weaken fun o vm ⟨_, found⟩ => ?_))
  exact nomatch gone.symm.trans found

theorem releaseHeldEnds {h x} (held : w.vm.Held h x) :
    Step.Ends T (releaseHandle h) w fun _ y => y = w.unpinned h := by
  obtain ⟨_, e, found, _⟩ := held
  exact releaseHandleEnds fun gone => nomatch found.symm.trans gone

theorem unpinnedHeld {g h x} (held : w.vm.Held g x) (other : g ≠ h) : (w.unpinned h).vm.Held g x :=
  (Vm.Change.released (rfl : h = h) : Vm.Change (· = h) (fun _ => True) w.vm _).held other held

theorem releaseAllEnds {hs : List Handle} (distinct : hs.Nodup) (live : ∀ h ∈ hs, ∃ x, w.vm.Held h x) :
    Step.Ends T (releaseAll hs) w fun _ y =>
      Served (· ∈ hs) (fun _ => True) w y ∧ y.vm.heap = w.vm.heap ∧ y.disturbed = w.disturbed := by
  induction hs generalizing w with
  | nil => exact ⟨.refl w, rfl, rfl⟩
  | cons h hs ih =>
    obtain ⟨apart, distinct⟩ := List.nodup_cons.mp distinct
    obtain ⟨x, held⟩ := live h (by simp)
    change Step.Ends T (releaseHandle h >>= fun _ => releaseAll hs) w _
    refine Step.endsBind.mpr ((releaseHeldEnds held).weaken fun _ y same => ?_)
    subst same
    have rest : ∀ g ∈ hs, ∃ x, (w.unpinned h).vm.Held g x := by
      intro g mem
      obtain ⟨x, held⟩ := live g (by simp [mem])
      exact ⟨x, unpinnedHeld held fun same => apart (same ▸ mem)⟩
    refine (ih distinct rest).weaken fun _ z ⟨served, heap, disturbed⟩ => ⟨?_, heap, disturbed⟩
    have first : Served (· ∈ h :: hs) (fun _ => True) w (w.unpinned h) := .step (.released (by simp))
    exact first.trans (served.widen (fun g mem => by simp [mem]) fun _ _ => trivial)

theorem releaseAllServed {free : Handle → Prop} {hs : List Handle} (loose : ∀ h ∈ hs, free h) :
    Step.Ends (fun _ => True) (releaseAll hs) w fun _ x => Served free (fun _ => True) w x := by
  refine Step.endsForM (.refl w) fun h mem x served => ?_
  refine (releaseHandleEnds fun _ => trivial).weaken fun _ y same => ?_
  subst same
  exact served.trans (.step (.released (loose h mem)))

theorem looksVm {c : Step Vm α} (looks : Step.Looks c) : Step.Looks (vmStep c : Machine σ α) :=
  Step.looksZoom looks fun _ => rfl

theorem looksResolve (h : Handle) : Step.Looks (resolve h : Machine σ (Option Ref)) := by
  refine Step.looksBind (looksVm (Vm.looksHandleTarget h)) fun target => ?_
  refine Step.looksBind Step.looksGet fun w => ?_
  split
  next r c _ =>
    refine Step.looksBind (looksVm (Vm.looksClassOf r)) fun d => ?_
    split <;> exact Step.looksPure _
  next => exact Step.looksPure _

theorem resolveHeld {h x} (held : w.vm.Held h x) :
    Step.Ends (fun _ => True) (resolve h) w fun r y => y = w ∧ (r = none ∨ w.vm.heap.Denotes r x) := by
  obtain ⟨_, e, found, denotes⟩ := held
  refine Step.endsBind.mpr (vmStepEnds.mpr
    ((Vm.handleTargetEnds fun _ => trivial).weaken fun target vm ⟨same, e', again, is⟩ => ?_))
  subst same is
  cases found.symm.trans again
  simp only [Step.endsBind, Step.endsGet]
  split
  next r c some_ _ =>
    refine Step.endsBind.mpr ((looksVm (Vm.looksClassOf r) w).weaken fun d y same => ?_)
    subst same
    split
    next => exact ⟨rfl, Or.inl rfl⟩
    next => exact ⟨rfl, Or.inr (some_ ▸ denotes)⟩
  next => exact ⟨rfl, Or.inr denotes⟩

theorem resolveEnds {h x} (held : w.vm.Held h x) (faithful : w.lost = none) :
    Step.Ends T (resolve h) w fun r y => y = w ∧ w.vm.heap.Denotes r x := by
  obtain ⟨_, e, found, denotes⟩ := held
  refine Step.endsBind.mpr (vmStepEnds.mpr
    ((Vm.handleTargetEnds (by simp [found])).weaken fun target vm ends => ?_))
  obtain ⟨rfl, e', again, rfl⟩ := ends
  cases found.symm.trans again
  simp only [Step.endsBind, Step.endsGet]
  split
  next r c _ lost => exact absurd (lost.symm.trans faithful) (Option.some_ne_none c)
  next => exact ⟨rfl, denotes⟩

end World
end Detour
