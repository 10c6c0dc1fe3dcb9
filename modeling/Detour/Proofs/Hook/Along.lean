import Detour.Proofs.Hook.Calling
import Detour.Proofs.Hook.Handling

/-! Relations between worlds that hold along every run of the interception layer. Where a relation composes
and takes in what the layer does by itself, it holds along all of the layer's code as soon as it holds along
the user code and the calls between its pieces. -/
namespace Detour

open World

variable {σ α β ε δ : Type} {w x : World σ}

def Aside (w x : World σ) : Prop :=
  x = { w with vm := { x.vm with methods := w.vm.methods }, disturbed := x.disturbed }

namespace Aside

theorem refl (w : World σ) : Aside w w := rfl

theorem served {free : Handle → Prop} {still : Nat → Prop} (served : Served free still w x) : Aside w x := by
  unfold Aside
  rw [← served.methods]
  exact served.rest

theorem handled (handled : Handled w x) : Aside w x := by
  unfold Handled at handled
  unfold Aside
  rw [handled]

theorem records (aside : Aside w x) : x.records = w.records := by rw [aside]

theorem methods (aside : Aside w x) : x.vm.methods = w.vm.methods := by rw [aside]

theorem descriptor (aside : Aside w x) (m : MethodAddress) : x.descriptor? m = w.descriptor? m := by
  cases m with
  | live index => simp [descriptor?, aside.methods]
  | copy id => simp [descriptor?, aside.records]

end Aside

def Along (R : World σ → World σ → Prop) (c : Machine σ α) : Prop :=
  ∀ w, Step.Ends (fun _ => True) c w fun _ x => R w x

def Invoker.Along (R : World σ → World σ → Prop) (invoke : Invoker σ) : Prop :=
  ∀ m receiver args, Detour.Along R (invoke m receiver args).run

structure Guest.Along (R : World σ → World σ → Prop) (invoke : Invoker σ) (g : Guest σ) : Prop where
  body : ∀ index receiver args, Detour.Along R (g.body index invoke receiver args).run
  handler : ∀ id i, Detour.Along R (g.handler id invoke i).run
  before : ∀ id s, Detour.Along R (g.before id invoke s)
  after : ∀ id s, Detour.Along R (g.after id invoke s)

structure Lax (R : World σ → World σ → Prop) : Prop where
  trans : ∀ {w v x}, R w v → R v x → R w x
  aside : ∀ {w x}, Aside w x → R w x
  counted : ∀ w index, R w (w.counted index)

theorem Along.weaken {R S : World σ → World σ → Prop} {c : Machine σ α} (along : Along R c)
    (weaker : ∀ w x, R w x → S w x) : Along S c := fun w =>
  (along w).weaken fun _ x => weaker w x

namespace Lax

variable {R : World σ → World σ → Prop}

theorem looks (lax : Lax R) {c : Machine σ α} (looks : Step.Looks c) : Along R c := fun w =>
  (looks w).weaken fun _ _ same => by
    rw [same]
    exact lax.aside (.refl w)

theorem handles (lax : Lax R) {c : Machine σ α} (handles : Handles c) : Along R c := fun w =>
  (handles w).weaken fun _ _ handled => lax.aside (.handled handled)

theorem pure (lax : Lax R) (a : α) : Along R (Pure.pure a : Machine σ α) := lax.looks (Step.looksPure a)

theorem bind (lax : Lax R) {c : Machine σ α} {f : α → Machine σ β} (first : Along R c)
    (rest : ∀ a, Along R (f a)) : Along R (c >>= f) := fun w =>
  Step.endsBind.mpr ((first w).weaken fun a x before =>
    (rest a x).weaken fun _ _ after => lax.trans before after)

theorem ends (lax : Lax R) {c : Act σ ε α}
    (ends : ∀ w, Action.Ends (fun _ => True) c w fun _ x => Aside w x) : Along R c.run := fun w =>
  (ends w).weaken fun _ _ => lax.aside

theorem act (lax : Lax R) {c : Act σ ε α} {f : α → Act σ ε β} (first : Along R c.run)
    (rest : ∀ a, Along R (f a).run) : Along R (c >>= f).run := by
  refine lax.bind first fun r => ?_
  cases r with
  | ok a => exact rest a
  | error e => exact lax.pure _

theorem lifted (lax : Lax R) {c : Machine σ α} {f : α → Act σ ε β} (first : Along R c)
    (rest : ∀ a, Along R (f a).run) : Along R (lift c >>= f).run := by
  rw [Action.runLift]
  exact lax.bind first rest

theorem throws (lax : Lax R) (e : ε) : Along R (throw e : Act σ ε α).run := lax.looks (Action.looksThrow e)

theorem gives (lax : Lax R) (outcome : Except ε α) : Along R (Action.ofExcept outcome : Act σ ε α).run :=
  lax.looks (Action.looksOfExcept outcome)

end Lax

theorem Along.mapError {R : World σ → World σ → Prop} {f : ε → δ} {c : Act σ ε α} (first : Along R c.run) :
    Along R (Action.mapError f c).run := fun w =>
  Action.endsMapError.mpr (first w)

theorem Along.whether {R : World σ → World σ → Prop} {b : Prop} [Decidable b] {c d : Act σ ε α}
    (yes : Along R c.run) (no : Along R d.run) : Along R (if b then c else d).run := by
  split
  next => exact yes
  next => exact no

section Layer

variable {R : World σ → World σ → Prop} {invoke : Invoker σ} {g : Guest σ}

theorem serveAlong (lax : Lax R) (s : Service) : Along R (serve s : Act σ RuntimeError Unit).run := fun w =>
  Step.Ends.weaken (serveEnds s) fun _ x ⟨same, _⟩ => lax.aside (by unfold Aside; rw [same])

theorem callCheckedAlong (lax : Lax R) (calls : invoke.Along R) (m target : MethodAddress)
    (receiver : Option Ref) (args : List (Option Ref)) :
    Along R (callChecked invoke m target receiver args).run := by
  refine lax.lifted (lax.looks (looksDescriptor m)) fun d => ?_
  refine lax.act (lax.looks (Action.looksMapError (Action.looksOfExcept _))) fun shorty => ?_
  refine lax.act (lax.looks (looksCheckReceiver m receiver)) fun receiver => ?_
  refine lax.act (lax.looks (Boxing.looksConvertArguments m shorty args)) fun values => ?_
  have invoked : Along R (invoke.serve target receiver values).run :=
    lax.act (serveAlong lax .invoke) fun _ => calls target receiver values
  exact lax.act (.mapError invoked) fun result => .mapError <|
    lax.ends fun w => (Boxing.wrapResultCalm result w).weaken fun _ _ calm => .served calm

theorem callUnhookedAlong (lax : Lax R) (calls : invoke.Along R) (m : MethodAddress)
    (receiver : Option Ref) (args : List (Option Ref)) : Along R (callUnhooked invoke m receiver args).run :=
  lax.lifted (lax.looks Step.looksGet) fun _ => callCheckedAlong lax calls m _ receiver args

theorem HookedCall.proceedAlong (lax : Lax R) (calls : invoke.Along R) (i : HookedCall)
    (receiver : Option Ref) (args : List (Option Ref)) : Along R (i.proceed invoke receiver args).run :=
  lax.lifted (lax.looks i.looksMethod) fun m => callUnhookedAlong lax calls m receiver args

namespace Chain

theorem runBeforesAlong (lax : Lax R) (guest : g.Along R invoke) (hooks ran : List Callback) (s : SharedCall) :
    Along R (runBefores g invoke hooks ran s) := by
  induction hooks generalizing ran s with
  | nil => exact lax.pure _
  | cons h hooks ih =>
    unfold runBefores
    refine lax.bind (guest.before h.id s) fun r => ?_
    obtain ⟨outcome, t⟩ := r
    cases outcome with
    | error e => exact lax.bind (lax.handles (.clearOutcome t)) fun t => ih (h :: ran) t
    | ok =>
      dsimp only
      split
      next => exact lax.pure _
      next => exact ih (h :: ran) t

theorem runAftersAlong (lax : Lax R) (guest : g.Along R invoke) (hooks : List Callback) (s : SharedCall) :
    Along R (runAfters g invoke hooks s) := by
  induction hooks generalizing s with
  | nil => exact lax.pure _
  | cons h hooks ih =>
    unfold runAfters
    refine lax.bind (lax.handles (.saveOutcome s)) fun last => ?_
    refine lax.bind (guest.after h.id s) fun r => ?_
    obtain ⟨outcome, t⟩ := r
    cases outcome with
    | error e => exact lax.bind (lax.handles (.rollBack t last)) ih
    | ok => exact lax.bind (lax.handles (.releaseHandle last.result)) fun _ => ih t

theorem aroundAlong (lax : Lax R) (calls : invoke.Along R) (guest : g.Along R invoke) (i : HookedCall)
    (hooks : List Callback) (s : SharedCall) : Along R (around g invoke i hooks s) := by
  refine lax.bind (runBeforesAlong lax guest hooks [] s) fun (ran, t) => ?_
  dsimp only
  split
  next => exact runAftersAlong lax guest ran t
  next =>
    refine lax.bind (lax.looks (looksResolve t.receiver)) fun receiver => ?_
    refine lax.bind (lax.looks (looksResolveAll t.args)) fun args => ?_
    refine lax.bind (i.proceedAlong lax calls receiver args) fun outcome => ?_
    exact lax.bind (lax.handles (.settle t outcome)) fun t => runAftersAlong lax guest ran t

theorem answerAlong (lax : Lax R) (calls : invoke.Along R) (guest : g.Along R invoke) (chain : Nat)
    (i : HookedCall) : Along R (answer g invoke chain i).run := by
  have receiver : Step.Looks (i.receiver : Machine σ (Option Ref)) := i.boxed.looksReceiver
  have arguments : Step.Looks (i.arguments : Machine σ (List (Option Ref))) := i.boxed.looksArguments
  refine lax.lifted (lax.looks i.looksMethod) fun m => ?_
  refine lax.act (lax.looks fun _ => rfl) fun w => ?_
  refine lax.lifted (lax.looks (Step.looksRequire _ _)) fun c => ?_
  split
  next =>
    refine lax.lifted (lax.looks receiver) fun r => ?_
    exact lax.lifted (lax.looks arguments) fun args => i.proceedAlong lax calls r args
  next =>
    refine lax.lifted (lax.looks arguments) fun args => ?_
    refine lax.lifted (lax.looks receiver) fun r => ?_
    refine lax.lifted (lax.handles (.createView m r args)) fun s => ?_
    refine lax.lifted (aroundAlong lax calls guest i _ s) fun s => ?_
    refine lax.lifted (lax.looks s.looksOutcome) fun outcome => ?_
    exact lax.lifted (lax.handles (.releaseAll s.handles)) fun _ => lax.gives outcome

end Chain

theorem handlerAlong (lax : Lax R) (calls : invoke.Along R) (guest : g.Along R invoke) (h : Handler)
    (i : HookedCall) : Along R (h.answer g invoke i).run := by
  cases h with
  | plain id => exact guest.handler id i
  | chain id => exact Chain.answerAlong lax calls guest id i

theorem answerFrameAlong (lax : Lax R) (calls : invoke.Along R) (guest : g.Along R invoke) (id : Nat)
    (frame : Frame) : Along R (answerFrame g invoke id frame) := by
  rw [answerFrameParts]
  refine lax.bind (lax.looks (looksRecord id)) fun r => ?_
  have boxes := lax.ends fun w => Action.Ends.weaken (Boxing.ofFrameTidy frame r.slots r.isStatic
    r.interceptor.settings.emptyArgsArray w) fun _ _ ⟨tidy, _⟩ => .served tidy
  refine lax.bind boxes fun b => ?_
  cases b with
  | error e => exact lax.pure _
  | ok boxed =>
    refine lax.bind (handlerAlong lax calls guest _ _) fun result => ?_
    refine lax.bind (lax.looks (Boxing.looksFixReferences _ _ frame)) fun frame => ?_
    refine lax.bind (lax.looks (looksConvertOutcome r result)) fun converted => ?_
    exact lax.bind (lax.handles (.releaseAll _)) fun _ => lax.pure _

theorem enterHookAlong (lax : Lax R) (calls : invoke.Along R) (guest : g.Along R invoke)
    (m : Option MethodAddress) (bytes : Array UInt8) : Along R (enterHook g invoke m bytes) := by
  refine lax.bind (lax.looks Step.looksGet) fun w => ?_
  split
  next => exact lax.pure _
  next id _ =>
    refine lax.bind (lax.looks (looksRecord id)) fun r => ?_
    exact lax.bind (answerFrameAlong lax calls guest id _) fun _ => lax.pure _

theorem callBodyAlong (lax : Lax R) (guest : g.Along R invoke) : (callBody g invoke).Along R := by
  intro m receiver args
  have last (d : Descriptor) : Along R (do
      let _ ← lift (method m)
      let index := d.codeItem.toNat - 1
      lift (countCall index)
      g.body index invoke receiver args : Act σ RuntimeError Value).run := by
    refine lax.lifted (lax.looks (looksMethod m)) fun _ => ?_
    exact lax.lifted (fun w => Step.endsModify.mpr (lax.counted w _)) fun _ => guest.body _ receiver args
  refine lax.lifted (lax.looks (looksDescriptor m)) fun d => ?_
  split
  next c _ _ =>
    refine lax.act (lax.ends fun w => vmActionEnds.mpr ?_) fun _ => last d
    refine (Vm.initClassEnds trivial fun _ => trivial).weaken fun _ vm ⟨calm, _⟩ => ?_
    exact .served (Served.ofVm calm)
  next => exact last d

theorem callTrampolineAlong (lax : Lax R) (errors : ∀ w pending raised, R w { w with pending, raised })
    (calls : invoke.Along R) (guest : g.Along R invoke) : (callTrampoline g invoke).Along R := by
  intro m receiver args
  have enters (bytes : Array UInt8) : Along R (trampoline g invoke m bytes) := by
    refine lax.bind (enterHookAlong lax calls guest (some m) bytes) fun r => ?_
    split
    next => exact lax.pure _
    next => exact lax.pure _
    next e => exact lax.bind (fun w => Step.endsModify.mpr (errors w _ _)) fun _ => lax.pure _
  have takes : Along R (takePending : Machine σ (Option CallError)) := fun w => by
    refine Step.endsBind.mpr ?_
    rw [Step.endsGet, Step.endsBind, Step.endsSet]
    exact errors w none w.raised
  refine lax.lifted (lax.looks (looksDescriptor m)) fun d => ?_
  split
  next => exact lax.looks (Action.looksLift (Step.looksFault _))
  next shorty _ =>
    refine .whether (lax.looks (Action.looksLift (Step.looksFault _))) ?_
    refine lax.act (lax.looks fun _ => rfl) fun v => ?_
    refine lax.lifted (lax.looks (Step.looksOfExcept _)) fun frame => ?_
    refine lax.lifted (enters frame.bytes) fun raw => lax.lifted takes fun pending => ?_
    cases pending with
    | none => exact lax.pure _
    | some e =>
      refine lax.lifted (fun w => ?_) fun f => lax.throws f
      exact (managedExceptionCalm trivial e w).weaken fun _ _ calm => lax.aside (.served calm)

theorem callAlong (lax : Lax R) (errors : ∀ w pending raised, R w { w with pending, raised })
    (guest : ∀ invoke : Invoker σ, invoke.Along R → g.Along R invoke) (depth : Nat) :
    (call g depth).Along R := by
  induction depth with
  | zero => exact fun _ _ _ _ => trivial
  | succ depth ih =>
    intro m receiver args
    refine lax.lifted (lax.looks (looksDescriptor m)) fun d => ?_
    exact .whether (callTrampolineAlong lax errors ih (guest _ ih) m receiver args)
      (callBodyAlong lax (guest _ ih) m receiver args)

end Layer
end Detour
