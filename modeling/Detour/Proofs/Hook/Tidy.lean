import Detour.Proofs.Services

/-! What the interception layer does by itself, between two pieces of user code: it releases no handle and
stores into no array but those it made itself, and much of it only looks. -/
namespace Detour

open World

variable {σ α ε : Type} {T : Fault → Prop}

abbrev Tidy (w x : World σ) : Prop :=
  Served (fun h => w.vm.handles.next ≤ h.id) (fun k => k < w.vm.heap.objects.size) w x

namespace Tidy

variable {w x y : World σ}

theorem refl (w : World σ) : Tidy w w := Served.refl w

theorem trans (first : Tidy w x) (second : Tidy x y) : Tidy w y :=
  Served.trans first (second.widen (fun _ new => Nat.le_trans first.vm.issued new)
    fun _ old => Nat.lt_of_lt_of_le old first.vm.grown)

theorem leads {p : Rights σ} {n : Nat} {w₀ : World σ} (tidy : Tidy w x) (before : Leads p n w₀ w)
    (since : n ≤ w.vm.handles.next) (issued : ∀ h, w.Kept h → h.id < w.vm.handles.next)
    (settled : ∀ k, p.still k → k < w.vm.heap.objects.size) : Leads p n w₀ x :=
  Served.leads tidy before (fun h new => ⟨Or.inl (Nat.le_trans since new), fun kept =>
    Nat.not_le_of_lt (issued h kept) new⟩) settled

end Tidy

def Fresh (w : World σ) (h : Handle) (x : World σ) : Prop :=
  w.vm.handles.next ≤ h.id ∧ h.id < x.vm.handles.next

namespace Fresh

variable {free : Handle → Prop} {still : Nat → Prop} {h : Handle} {w v x : World σ}

theorem before (fresh : Fresh v h x) (served : Served free still w v) : Fresh w h x :=
  ⟨Nat.le_trans served.vm.issued fresh.1, fresh.2⟩

theorem after (fresh : Fresh w h v) (served : Served free still v x) : Fresh w h x :=
  ⟨fresh.1, Nat.lt_of_lt_of_le fresh.2 served.vm.issued⟩

theorem foreign {p : Rights σ} (fresh : Fresh w h x) (owned : ∀ h, p.mine w.user h → h.id < w.vm.handles.next)
    (tidy : Tidy w x) : ¬ p.mine x.user h :=
  fun mine => Nat.not_le_of_lt (owned h (tidy.user ▸ mine)) fresh.1

theorem pinned (w : World σ) (kind : HandleKind) (target : Option Ref) :
    Fresh w ⟨w.vm.handles.next⟩ (w.pinned kind target) :=
  ⟨Nat.le_refl _, Nat.lt_succ_self _⟩

end Fresh

namespace World

variable {w : World σ}

theorem looksDescriptor (m : MethodAddress) : Step.Looks (descriptor m : Machine σ Descriptor) :=
  Step.looksBind Step.looksGet fun _ => Step.looksRequire _ _

theorem descriptorEnds {m : MethodAddress} (unknown : w.descriptor? m = none → T .unknownMethod) :
    Step.Ends T (descriptor m) w fun d x => x = w ∧ w.descriptor? m = some d := by
  simp only [descriptor, Step.endsBind, Step.endsGet, Step.endsRequire]
  exact ⟨fun d found => ⟨trivial, found⟩, unknown⟩

theorem descriptorRun {m : MethodAddress} {d : Descriptor} (found : w.descriptor? m = some d) :
    descriptor m w = .ok (d, w) :=
  Step.requireRun found

theorem recordEnds {id : Nat} (unknown : w.records[id]? = none → T .unknownMethod) :
    Step.Ends T (record id) w fun r x => x = w ∧ w.records[id]? = some r := by
  simp only [record, Step.endsBind, Step.endsGet, Step.endsRequire]
  exact ⟨fun r found => ⟨trivial, found⟩, unknown⟩

theorem recordRun {id : Nat} {r : InstalledHook} (found : w.records[id]? = some r) :
    record id w = .ok (r, w) :=
  Step.requireRun found

theorem looksMethod (m : MethodAddress) : Step.Looks (method m : Machine σ Method) :=
  Step.looksBind (looksDescriptor m) fun _ => looksVm (Vm.looksMethod _)

theorem looksRecord (id : Nat) : Step.Looks (record id : Machine σ InstalledHook) :=
  Step.looksBind Step.looksGet fun _ => Step.looksRequire _ _

theorem looksClassName (c : ClassId) : Step.Looks (className c : Machine σ String) :=
  looksVm (Vm.looksClassName c)

theorem looksTypeName (r : Ref) : Step.Looks (typeName r : Machine σ String) :=
  looksVm (Vm.looksTypeName r)

theorem looksIsInstance (r : Ref) (c : ClassId) : Step.Looks (isInstance r c : Machine σ Bool) :=
  looksVm (Vm.looksIsInstance r c)

theorem looksDescribe (m : MethodAddress) : Step.Looks (describe m : Machine σ String) := by
  refine Step.looksBind (looksDescriptor m) fun d => ?_
  cases d.declaringClass with
  | none =>
    exact Step.looksBind (Step.looksPure _) fun _ => Step.looksBind (looksMethod m) fun _ =>
      Step.looksPure _
  | some c =>
    exact Step.looksBind (looksClassName c) fun _ => Step.looksBind (looksMethod m) fun _ =>
      Step.looksPure _

theorem looksResolveAll (hs : List Handle) :
    Step.Looks (resolveAll hs : Machine σ (List (Option Ref))) :=
  Step.looksMapM looksResolve hs

theorem createAllCalm (list : List (Option Ref)) (w : World σ) :
    Step.Ends (fun _ => True) (list.mapM createLocal) w fun hs x =>
      Calm w x ∧ ∀ h ∈ hs, Fresh w h x := by
  induction list generalizing w with
  | nil => exact ⟨.refl w, by simp⟩
  | cons target list ih =>
    rw [List.mapM_cons]
    refine Step.endsBind.mpr ((createLocalEnds fun _ _ _ => trivial).weaken fun h x ⟨new, same⟩ => ?_)
    subst new same
    refine Step.endsBind.mpr ((ih _).weaken fun hs y ⟨calm, later⟩ => ?_)
    refine ⟨(pinnedCalm _ _).trans calm, fun g mem => ?_⟩
    rcases List.mem_cons.mp mem with rfl | rest
    · exact (Fresh.pinned _ _ _).after calm
    · exact (later g rest).before (pinnedCalm _ _)

end World

namespace Boxing

variable {frame : Frame} {w : World σ}

theorem pinReferencesCalm (frame : Frame) (index : Nat) (slots : List Slot) (w : World σ) :
    Step.Ends (fun _ => True) (pinReferences frame index slots) w fun refs x =>
      Calm w x ∧ ∀ e ∈ refs, Fresh w e.2 x := by
  induction slots generalizing index w with
  | nil => exact ⟨.refl w, by simp⟩
  | cons s slots ih =>
    unfold pinReferences
    split
    next =>
      refine Step.endsBind.mpr ((Step.looksOfExcept _ w).weaken fun r x same => ?_)
      subst same
      refine Step.endsBind.mpr ((createLocalEnds fun _ _ _ => trivial).weaken fun h y ⟨new, same⟩ => ?_)
      subst new same
      refine Step.endsBind.mpr ((ih (index + 1) _).weaken fun refs z ⟨calm, later⟩ => ?_)
      refine ⟨(pinnedCalm _ _).trans calm, fun e mem => ?_⟩
      rcases List.mem_cons.mp mem with rfl | rest
      · exact (Fresh.pinned _ _ _).after calm
      · exact (later e rest).before (pinnedCalm _ _)
    next => exact ih (index + 1) w

def element (frame : Frame) (s : Slot) (references : List Handle) :
    Act σ RuntimeError (Option Ref) :=
  if s.tag = .reference then
    match references with
    | h :: _ => lift (resolve h)
    | [] => pure none
  else do
    let v ← lift (Step.ofExcept (frame.valueAt s))
    some <$> World.box v

def putElement (array : Handle) (index : Nat) (e : Option Ref) : Act σ RuntimeError Unit := do
  match ← lift (resolve array) with
  | none => throw (.outOfMemory "argument array")
  | some a => lift (vmStep (Vm.setElement a index e))

theorem fillArrayCons (frame : Frame) (array : Handle) (index : Nat) (s : Slot) (slots : List Slot)
    (references : List Handle) :
    (fillArray frame array index (s :: slots) references : Act σ RuntimeError Unit) = (do
      let e ← element frame s references
      putElement array index e
      fillArray frame array (index + 1) slots
        (if s.tag = .reference then references.drop 1 else references)) := by
  have put (e : Option Ref) (rest : Act σ RuntimeError Unit) :
      (do putElement array index e; rest) = (do
        match ← lift (resolve array) with
        | none => throw (.outOfMemory "argument array")
        | some a =>
          lift (vmStep (Vm.setElement a index e))
          rest) := by
    simp only [putElement, bind_assoc]
    congr 1
    funext target
    cases target <;> rfl
  have made (then_ : Option Ref → Act σ RuntimeError Unit) :
      (if s.tag = .reference then
        match references with
        | h :: _ => lift (resolve h) >>= then_
        | [] => pure none >>= then_
      else do
        let v ← lift (Step.ofExcept (frame.valueAt s))
        let e ← some <$> World.box v
        then_ e) = element frame s references >>= then_ := by
    unfold element
    split
    next => cases references <;> rfl
    next => exact (bind_assoc ..).symm
  simp only [put]
  exact made _

theorem elementCalm (frame : Frame) (s : Slot) (references : List Handle) (w : World σ) :
    Action.Ends (fun _ => True) (element frame s references) w fun _ x => Calm w x := by
  unfold element
  split
  next =>
    cases references with
    | nil => exact .refl w
    | cons h _ =>
      refine Action.endsLift.mpr ((looksResolve h w).weaken fun r x same => ?_)
      rw [same]
      exact .refl w
  next =>
    refine Action.endsLiftBind.mpr ((Step.looksOfExcept _ w).weaken fun v x same => ?_)
    subst same
    refine Action.endsMap.mpr ((boxEnds trivial trivial v).weaken fun r y ⟨made, refused⟩ => ?_)
    cases r with
    | ok a => exact (made a rfl).calm
    | error e => exact (refused e rfl).calm

theorem putElementServed {array : Handle} {k : Nat} (index : Nat) (e : Option Ref) (w : World σ)
    (held : w.vm.Held array (some k)) :
    Action.Ends (fun _ => True) (putElement array index e) w fun _ x =>
      Served (fun _ => False) (· ≠ k) w x := by
  unfold putElement
  refine Action.endsLiftBind.mpr ((resolveHeld held).weaken fun r x ⟨same, target⟩ => ?_)
  subst same
  cases r with
  | none => exact .refl x
  | some a =>
    have denotes := target.resolve_left (by simp)
    refine Action.endsLift.mpr (vmStepEnds.mpr ((Vm.setElementEnds (fun _ => trivial)
      (fun _ _ _ => trivial) (fun _ _ _ => trivial) fun _ _ _ => trivial).weaken
        fun _ vm ⟨es, at_, same⟩ => ?_))
    subst same
    exact .step (.stored denotes at_ fun differs => differs rfl)

theorem fillArrayServed {array : Handle} {k : Nat} (frame : Frame) (index : Nat) (slots : List Slot)
    (references : List Handle) (w : World σ) (held : w.vm.Held array (some k)) :
    Action.Ends (fun _ => True) (fillArray frame array index slots references) w fun _ x =>
      Served (fun _ => False) (· ≠ k) w x := by
  induction slots generalizing index references w with
  | nil => exact .refl w
  | cons s slots ih =>
    rw [fillArrayCons]
    refine Action.endsBind.mpr ((elementCalm frame s references w).weaken fun r x calm => ⟨?_, ?_⟩)
    · intro e _
      have first : x.vm.Held array (some k) := Vm.Calm.holds calm.vm held
      refine Action.endsBind.mpr ((putElementServed index e x first).weaken fun r y put => ⟨?_, ?_⟩)
      · intro _ _
        refine (ih _ _ y (put.vm.held id first)).weaken fun r z rest => ?_
        exact (calm.served.trans put).trans rest
      · exact fun _ _ => calm.served.trans put
    · exact fun _ _ => calm.served

theorem boxArrayTidy (frame : Frame) (params : List Slot) (references : List Handle) (w : World σ) :
    Action.Ends (fun _ => True) (boxArray frame params references) w fun r x =>
      Tidy w x ∧ ∀ h, r = .ok h → Fresh w h x := by
  unfold boxArray
  refine Action.endsBind.mpr ((allocateArrayEnds trivial _).weaken fun r x ⟨made, refused⟩ =>
    ⟨fun array found => ?_, fun e failed => ⟨(refused e failed).calm.served, by simp⟩⟩)
  have made := made array found
  refine Action.endsLiftBind.mpr ((createLocalEnds fun _ _ _ => trivial).weaken fun h y ⟨new, same⟩ => ?_)
  have held := @pinnedHeld σ x .localHandle (some array) _ made.denotes
  subst same
  rw [← new] at held
  refine Action.endsLiftBind.mpr ((fillArrayServed frame 0 params references _ held).weaken fun r z filled => ?_)
  have later : Fresh w h z := by
    rw [new]
    exact ((Fresh.pinned x .localHandle (some array)).after filled).before made.calm
  have tidy : Tidy w z := (made.calm.served.trans (pinnedCalm _ _).served).trans
    (filled.widen (fun _ never => never.elim) fun k old => Nat.ne_of_lt old)
  cases r with
  | ok => exact ⟨tidy, fun g same => by cases same; exact later⟩
  | error e =>
    refine Action.endsLiftBind.mpr ((releaseHandleEnds fun _ => trivial).weaken fun _ v same => ?_)
    subst same
    exact ⟨Served.trans tidy (.step (.released later.1)), by simp⟩

theorem ofFrameTidy (frame : Frame) (slots : List Slot) (isStatic empties : Bool) (w : World σ) :
    Action.Ends (fun _ => True) (ofFrame frame slots isStatic empties) w fun r x =>
      Tidy w x ∧ ∀ b, r = .ok b → ∀ h ∈ b.handles, Fresh w h x := by
  unfold ofFrame
  refine Action.endsLiftBind.mpr ((pinReferencesCalm frame 0 slots w).weaken fun refs x ⟨calm, later⟩ => ?_)
  have old {h : Handle} (mem : h ∈ refs.map (·.2)) : Fresh w h x := by
    obtain ⟨e, found, rfl⟩ := List.mem_map.mp mem
    exact later e found
  generalize (if isStatic = true then 0 else 1) = first
  dsimp only
  split
  next =>
    refine ⟨calm.served, fun b same h mem => ?_⟩
    cases same
    exact old (by simpa [BoxedFrame.handles] using mem)
  next =>
    refine Action.endsLiftBind.mpr ((boxArrayTidy frame _ _ x).weaken fun r y ⟨boxing, new⟩ => ?_)
    have tidy : Tidy w y := Tidy.trans calm.served boxing
    cases r with
    | ok array =>
      refine ⟨tidy, fun b same h mem => ?_⟩
      cases same
      rcases List.mem_append.mp mem with reference | own
      · exact (old reference).after boxing
      · obtain rfl : h = array := by simpa using own
        exact (new _ rfl).before calm
    | error e =>
      refine Action.endsLiftBind.mpr ((releaseAllServed fun h mem => (old mem).1).weaken fun _ z released => ?_)
      exact ⟨Served.trans tidy (released.widen (fun _ new => new) fun _ _ => trivial), by simp⟩

/-! ## Conversions -/

theorem looksFixReferences (slots : List Slot) (references : List (Nat × Handle)) (frame : Frame) :
    Step.Looks (fixReferences frame slots references : Machine σ Frame) := by
  induction references generalizing frame with
  | nil => exact Step.looksPure _
  | cons e references ih =>
    unfold fixReferences
    refine Step.looksBind (looksResolve _) fun r => ?_
    cases slots[e.1]? with
    | none => exact ih frame
    | some s => exact Step.looksBind (Step.looksOfExcept _) fun frame => ih frame

theorem looksUnbox (r : Ref) : Action.Looks (lift (vmStep (Vm.unbox r)) : Act σ ε (Option Value)) :=
  Action.looksLift (looksVm (Vm.looksUnbox r))

theorem looksThrowType (r : Ref) (f : String → ε) :
    Action.Looks (do throw (f (← lift (typeName r))) : Act σ ε α) :=
  Action.looksBind (Action.looksLift (looksTypeName r)) fun _ => Action.looksThrow _

theorem looksThrowClass (c : ClassId) (r : Ref) (f : String → String → ε) :
    Action.Looks (do throw (f (← lift (className c)) (← lift (typeName r))) : Act σ ε α) :=
  Action.looksBind (Action.looksLift (looksClassName c)) fun _ => looksThrowType r _

theorem looksConvertArgument (m : MethodAddress) (index : Nat) (declared : Tag)
    (value : Option Ref) :
    Action.Looks (convertArgument m index declared value : Act σ CallError Value) := by
  refine Action.looksBind (Action.looksLift (looksMethod m)) fun info => ?_
  dsimp only
  split
  next =>
    split
    next r c _ =>
      refine Action.looksBind (Action.looksLift (looksIsInstance r c)) fun fits => ?_
      split
      next => exact Action.looksPure _
      next => exact looksThrowClass c r _
    next => exact Action.looksPure _
  next =>
    split
    next => exact Action.looksThrow _
    next r =>
      refine Action.looksBind (looksUnbox r) fun stored => ?_
      split
      next => exact looksThrowType r _
      next => split <;> first | exact Action.looksThrow _ | exact Action.looksPure _

theorem looksConvertEach (m : MethodAddress) (tags : List Tag) (index : Nat)
    (args : List (Option Ref)) :
    Action.Looks (convertEach m index tags args : Act σ CallError (List Value)) := by
  induction tags generalizing index args with
  | nil => exact Action.looksPure _
  | cons t tags ih =>
    cases args with
    | nil => exact Action.looksPure _
    | cons a args =>
      exact Action.looksBind (looksConvertArgument m index t a) fun _ =>
        Action.looksBind (ih (index + 1) args) fun _ => Action.looksPure _

theorem looksConvertArguments (m : MethodAddress) (shorty : Shorty) (args : List (Option Ref)) :
    Action.Looks (convertArguments m shorty args : Act σ CallError (List Value)) := by
  unfold convertArguments
  split
  next => exact Action.looksThrow _
  next => exact looksConvertEach m _ 0 args

theorem looksConvertResult (m : MethodAddress) (declared : Tag) (result : Option Ref) :
    Action.Looks (convertResult m declared result : Act σ CallError Value) := by
  unfold convertResult
  split
  next => exact Action.looksPure _
  next =>
    refine Action.looksBind (Action.looksLift (looksMethod m)) fun info => ?_
    split
    next r c _ =>
      refine Action.looksBind (Action.looksLift (looksIsInstance r c)) fun fits => ?_
      split
      next => exact Action.looksPure _
      next => exact looksThrowClass c r _
    next => exact Action.looksPure _
  next =>
    split
    next => exact Action.looksThrow _
    next r =>
      refine Action.looksBind (looksUnbox r) fun stored => ?_
      split
      next => exact looksThrowType r _
      next => split <;> first | exact Action.looksThrow _ | exact Action.looksPure _

theorem wrapResultCalm (v : Value) (w : World σ) :
    Action.Ends (fun _ => True) (wrapResult v : Act σ RuntimeError (Option Ref)) w fun _ x => Calm w x := by
  have boxed : Action.Ends (fun _ => True) (some <$> World.box v : Act σ RuntimeError (Option Ref)) w
      fun _ x => Calm w x := by
    refine Action.endsMap.mpr ((boxEnds trivial trivial v).weaken fun r y ⟨made, refused⟩ => ?_)
    cases r with
    | ok a => exact (made a rfl).calm
    | error e => exact (refused e rfl).calm
  cases v with
  | void | reference => exact .refl w
  | _ => exact boxed

end Boxing

theorem BoxedFrame.looksReceiver (b : BoxedFrame) :
    Step.Looks (b.receiver : Machine σ (Option Ref)) := by
  unfold receiver
  split
  next => exact looksResolve _
  next => exact Step.looksPure _

theorem BoxedFrame.looksArguments (b : BoxedFrame) :
    Step.Looks (b.arguments : Machine σ (List (Option Ref))) := by
  have array : Step.Looks (b.arrayRef : Machine σ (Option Ref)) := by
    unfold arrayRef
    split
    next => exact looksResolve _
    next => exact Step.looksPure _
  refine Step.looksBind array fun r => ?_
  cases r with
  | none => exact Step.looksPure _
  | some r => exact looksVm (Vm.looksElements r)

theorem looksCheckReceiver (m : MethodAddress) (receiver : Option Ref) :
    Action.Looks (checkReceiver m receiver : Act σ CallError (Option Ref)) := by
  refine Action.looksBind (Action.looksLift (looksDescriptor m)) fun d => ?_
  split
  next => exact Action.looksPure _
  next =>
    split
    next =>
      exact Action.looksBind (Action.looksLift (looksDescribe m)) fun _ => Action.looksThrow _
    next r =>
      split
      next => exact Action.looksPure _
      next c _ =>
        refine Action.looksBind (Action.looksLift (looksIsInstance r c)) fun fits => ?_
        split
        next => exact Action.looksPure _
        next => exact Boxing.looksThrowClass c r _

end Detour
