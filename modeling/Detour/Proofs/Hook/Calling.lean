import Detour.Proofs.Hook.Sharing

/-! The calls that user code can make, hooked and unhooked, at any depth. -/
namespace Detour

open World

variable {σ : Type} {p : Rights σ} {n : Nat} {w₀ w x : World σ}

section Calls

variable {g : Guest σ} {invoke : Invoker σ}

theorem handlerRespects (lawful : g.Lawful p) (respects : Invoker.Respects p invoke) (h : Handler)
    (i : HookedCall) : Respects p (h.answer g invoke i) := by
  cases h with
  | plain id => exact lawful.handler invoke respects id i
  | chain id => exact Chain.answerRespects lawful respects id i

def convertOutcome (r : InstalledHook) (result : Except CallError (Option Ref)) :
    Machine σ (Except CallError Value) :=
  match result with
  | .error e => pure (.error e)
  | .ok obj => (Boxing.convertResult r.method r.shorty.result obj).attempt

def finishFrame (r : InstalledHook) (frame : Frame) (boxed : BoxedFrame)
    (result : Except CallError (Option Ref)) : Machine σ (Except CallError Value × Frame) := do
  let frame ← Boxing.fixReferences frame r.slots boxed.references
  let converted ← convertOutcome r result
  boxed.release
  return (converted, frame)

theorem answerFrameParts (g : Guest σ) (invoke : Invoker σ) (id : Nat) (frame : Frame) :
    answerFrame g invoke id frame = (do
      let r ← record id
      match ← (Boxing.ofFrame frame r.slots r.isStatic
        r.interceptor.settings.emptyArgsArray).attempt with
      | .error e => return (.error (.runtime e), frame)
      | .ok boxed =>
        let result ← (r.interceptor.handler.answer g invoke ⟨id, boxed⟩).attempt
        finishFrame r frame boxed result) := by
  unfold answerFrame
  congr 1
  funext r
  dsimp only
  congr 1
  funext b
  cases b with
  | error e => rfl
  | ok boxed =>
    dsimp only
    congr 1
    funext result
    cases result <;> rfl

theorem looksConvertOutcome (r : InstalledHook) (result : Except CallError (Option Ref)) :
    Step.Looks (convertOutcome r result : Machine σ (Except CallError Value)) := by
  cases result with
  | error e => exact Step.looksPure _
  | ok obj => exact Boxing.looksConvertResult _ _ _

theorem finishFrameWithin (within : Within p n w₀ w) (r : InstalledHook) (frame : Frame)
    {boxed : BoxedFrame} (own : ∀ h ∈ boxed.handles, Own n w h)
    (result : Except CallError (Option Ref)) :
    Step.Ends (fun _ => True) (finishFrame r frame boxed result) w fun _ x => Within p n w₀ x := by
  refine Step.endsBind.mpr ((Boxing.looksFixReferences _ _ frame w).weaken fun frame x same => ?_)
  subst same
  refine Step.endsBind.mpr ((looksConvertOutcome r result x).weaken fun c y same => ?_)
  subst same
  refine Step.endsBind.mpr ((releaseAllServed fun h mem => mem).weaken fun _ v released => ?_)
  exact within.served released own

theorem answerFrameWithin (lawful : g.Lawful p) (respects : Invoker.Respects p invoke)
    (within : Within p n w₀ w) (id : Nat) (frame : Frame) :
    Step.Ends (fun _ => True) (answerFrame g invoke id frame) w fun _ x => Within p n w₀ x := by
  rw [answerFrameParts]
  refine Step.endsBind.mpr ((looksRecord id w).weaken fun r x same => ?_)
  subst same
  refine Step.endsBind.mpr (Step.Ends.weaken (Boxing.ofFrameTidy frame _ _ _ x) fun b y ⟨tidy, later⟩ => ?_)
  cases b with
  | error e => exact within.tidy tidy
  | ok boxed =>
    have own : ∀ h ∈ boxed.handles, Own n y h := fun h mem => within.own (later boxed rfl h mem) tidy.records
    have answered := (within.tidy tidy).respectsOwn
      (handlerRespects lawful respects r.interceptor.handler ⟨id, boxed⟩)
    refine Step.endsBind.mpr (Step.Ends.weaken answered fun result y ⟨within, kept⟩ => ?_)
    exact finishFrameWithin within r frame (fun h mem => kept h (own h mem)) result

theorem enterHookWithin (lawful : g.Lawful p) (respects : Invoker.Respects p invoke)
    (within : Within p n w₀ w) (m : Option MethodAddress) (bytes : Array UInt8) :
    Step.Ends (fun _ => True) (enterHook g invoke m bytes) w fun _ x => Within p n w₀ x := by
  refine Step.endsBind.mpr ?_
  rw [Step.endsGet]
  split
  next => exact within
  next id _ =>
    refine Step.endsBind.mpr ((looksRecord id w).weaken fun r x same => ?_)
    subst same
    exact Step.endsBind.mpr ((answerFrameWithin lawful respects within id _).weaken fun _ _ within => within)

theorem trampolineEnds (lawful : g.Lawful p) (respects : Invoker.Respects p invoke)
    (within : Within p n w₀ w) (m : MethodAddress) (bytes : Array UInt8) :
    Step.Ends (fun _ => True) (trampoline g invoke m bytes) w fun _ x =>
      Within p n w₀ { x with pending := none } := by
  refine Step.endsBind.mpr ((enterHookWithin lawful respects within (some m) bytes).weaken fun r x within => ?_)
  have cleared : { x with pending := none } = x := by
    have clear := within.still.clear
    cases x
    simp only at clear
    rw [clear]
  obtain ⟨outcome, bytes⟩ := r
  dsimp only
  split
  next => exact cleared.symm ▸ within
  next => exact cleared.symm ▸ within
  next e => exact ⟨within.since, within.ready, within.leads.moves (.fails e)⟩

theorem managedExceptionCalm {T : Fault → Prop} (full : T .referencesExhausted) (e : CallError)
    (w : World σ) : Step.Ends T (managedException e) w fun _ x => Calm w x := by
  have allocates : Step.Ends T (do
      let r ← vmStep (Vm.allocate (.throwable e.message))
      return RuntimeError.exception r) w fun _ x => Calm w x := by
    refine Step.endsBind.mpr (vmStepEnds.mpr ((Vm.allocateEnds full _).weaken fun _ vm made => ?_))
    exact .ofVm made.calm
  unfold managedException
  split
  next => exact .refl w
  next => exact .refl w
  next => exact allocates

theorem callTrampolineRespects (lawful : g.Lawful p) (respects : Invoker.Respects p invoke) :
    Invoker.Respects p (callTrampoline g invoke) := by
  intro m receiver args
  refine respectsOf fun n w₀ w within => ?_
  refine Within.bind (Within.lifts (within.looks (looksDescriptor m))) fun d x within => ?_
  split
  next => exact Within.lifts (within.looks (Step.looksFault _))
  next shorty _ =>
    split
    next => exact Within.lifts (within.looks (Step.looksFault _))
    next =>
      refine Within.bind (within.looksAct fun _ => rfl) fun v x within => ?_
      refine Within.bind (Within.lifts (within.looks (Step.looksOfExcept _))) fun frame x within => ?_
      refine Action.endsLiftBind.mpr ((trampolineEnds lawful respects within m _).weaken fun raw y within => ?_)
      refine Action.endsLiftBind.mpr (Step.endsBind.mpr ?_)
      rw [Step.endsGet, Step.endsBind, Step.endsSet]
      cases y.pending with
      | none => exact within
      | some e =>
        refine Action.endsLiftBind.mpr ((managedExceptionCalm trivial e _).weaken fun _ z calm => ?_)
        exact within.calm calm

theorem callBodyRespects (lawful : g.Lawful p) (respects : Invoker.Respects p invoke) :
    Invoker.Respects p (callBody g invoke) := by
  intro m receiver args
  refine respectsOf fun n w₀ w within => ?_
  refine Within.bind (Within.lifts (within.looks (looksDescriptor m))) fun d x within => ?_
  have last (x : World σ) (within : Within p n w₀ x) : Action.Ends (fun _ => True) (do
      let _ ← lift (method m)
      let index := d.codeItem.toNat - 1
      lift (countCall index)
      g.body index invoke receiver args : Act σ RuntimeError Value) x fun _ y => Within p n w₀ y := by
    refine Within.bind (Within.lifts (within.looks (looksMethod m))) fun _ x within => ?_
    refine Action.endsLiftBind.mpr (Step.endsModify.mpr ?_)
    have counted : Within p n w₀ (x.counted (d.codeItem.toNat - 1)) :=
      ⟨within.since, within.ready, within.leads.moves (.counts _)⟩
    exact counted.respects (lawful.body invoke respects _ _ _)
  split
  next c _ _ =>
    refine Within.bind (vmActionEnds.mpr ?_) fun _ x within => last x within
    exact (Vm.initClassEnds trivial fun _ => trivial).weaken fun _ vm ⟨calm, _⟩ => within.calm (.ofVm calm)
  next => exact last x within

theorem callRespects (lawful : g.Lawful p) (depth : Nat) : Invoker.Respects p (call g depth) := by
  induction depth with
  | zero => exact fun m receiver args w _ => trivial
  | succ depth ih =>
    intro m receiver args
    refine respectsOf fun n w₀ w within => ?_
    refine Within.bind (Within.lifts (within.looks (looksDescriptor m))) fun d x within => ?_
    split
    next => exact within.respects (callTrampolineRespects lawful ih m receiver args)
    next => exact within.respects (callBodyRespects lawful ih m receiver args)

end Calls
end Detour
