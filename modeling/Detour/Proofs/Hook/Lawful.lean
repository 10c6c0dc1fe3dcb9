import Detour.Proofs.Hook.Tidy

/-! User code that keeps to the rules, and the calls that it can make. Whatever such code does leads from
world to world; hooked calls, unhooked calls and inherited calls around it then lead too, at any depth. -/
namespace Detour

open World

variable {σ α ε : Type} {p : Rights σ} {n : Nat} {w₀ w x : World σ}

structure Ready (p : Rights σ) (w : World σ) : Prop where
  clear : w.pending = none
  there : ∀ k, p.still k → k < w.vm.heap.objects.size
  issued : ∀ h, w.Kept h → h.id < w.vm.handles.next

theorem Leads.ready (leads : Leads p n w x) (ready : Ready p w) : Ready p x :=
  ⟨leads.pending ready.clear, fun k still => Nat.lt_of_lt_of_le (ready.there k still) leads.grown,
    leads.keptIssued ready.issued⟩

def Respects (p : Rights σ) (c : Act σ ε α) : Prop :=
  ∀ w, Ready p w → Action.Ends (fun _ => True) c w fun _ x => Leads p w.vm.handles.next w x

def Invoker.Respects (p : Rights σ) (invoke : Invoker σ) : Prop :=
  ∀ m receiver args, Detour.Respects p (invoke m receiver args)

structure View where
  receiver : Option Nat
  args : List (Option Nat)
  result : Option Nat

def SharedCall.handles (s : SharedCall) : List Handle := s.receiver :: s.args ++ [s.result]

structure Spares (p : Rights σ) (h : Handle) (w x : World σ) : Prop where
  changes : Vm.Changes (· ≠ h) p.still w.vm.bare x.vm.bare
  kept : x.Kept h → w.Kept h
  mine : p.mine x.user h → p.mine w.user h

theorem Calm.spares (calm : Calm w x) (h : Handle) : Spares p h w x :=
  ⟨calm.vm.bare.widen (fun _ never => never.elim) fun _ _ => trivial, calm.kept.mp, fun own => calm.user ▸ own⟩

/-- What a callback may do: run as any code does, and set the parts of the view that it is shown. The
handles of the view are not its own. -/
inductive Edits (p : Rights σ) (n : Nat) (s : SharedCall) (w : World σ) (a : View) :
    SharedCall → World σ → View → Prop
  | refl : Edits p n s w a s w a
  | runs {t v b x} (before : Edits p n s w a t v b) (leads : Leads p n v x)
    (spares : ∀ h ∈ t.handles, Spares p h v x) : Edits p n s w a t x b
  | receives {t v b t' x r y} (before : Edits p n s w a t v b) (denotes : v.vm.heap.Denotes r y)
    (set : t.replaceReceiver r v = .ok (t', x)) : Edits p n s w a t' x { b with receiver := y }
  | replaces {t v b t' x index r y} (before : Edits p n s w a t v b) (denotes : v.vm.heap.Denotes r y)
    (set : t.replaceArgument index r v = .ok (t', x)) :
    Edits p n s w a t' x { b with args := b.args.set index y }
  | answers {t v b t' x r y} (before : Edits p n s w a t v b) (denotes : v.vm.heap.Denotes r y)
    (set : t.answerWith r v = .ok (t', x)) : Edits p n s w a t' x { b with result := y }
  | fails {t v b t' x e} (before : Edits p n s w a t v b) (set : t.failWith e v = .ok (t', x)) :
    Edits p n s w a t' x { b with result := none }

namespace Edits

variable {s t : SharedCall} {a b : View} {v : World σ}

theorem answerWith {r : Option Ref} {y : Option Nat} (before : Edits p n s w a t v b)
    (denotes : v.vm.heap.Denotes r y) : Step.Ends (fun _ => True) (t.answerWith r) v fun t' x =>
      Edits p n s w a t' x { b with result := y } :=
  (Step.Ends.ran Step.endsAny).weaken fun _ _ ⟨set, _⟩ => .answers before denotes set

theorem failWith (before : Edits p n s w a t v b) (e : CallError) :
    Step.Ends (fun _ => True) (t.failWith e) v fun t' x => Edits p n s w a t' x { b with result := none } :=
  (Step.Ends.ran Step.endsAny).weaken fun _ _ ⟨set, _⟩ => .fails before set

end Edits

def CallbackCode.Respects (p : Rights σ) (code : CallbackCode σ) : Prop :=
  ∀ s w a, Ready p w → Step.Ends (fun _ => True) (code s) w fun r x =>
    ∃ b, Edits p w.vm.handles.next s w a r.2 x b

structure Guest.Lawful (p : Rights σ) (g : Guest σ) : Prop where
  body : ∀ invoke, Invoker.Respects p invoke → ∀ index receiver args,
    Respects p (g.body index invoke receiver args)
  handler : ∀ invoke, Invoker.Respects p invoke → ∀ id call, Respects p (g.handler id invoke call)
  before : ∀ invoke, Invoker.Respects p invoke → ∀ id, CallbackCode.Respects p (g.before id invoke)
  after : ∀ invoke, Invoker.Respects p invoke → ∀ id, CallbackCode.Respects p (g.after id invoke)

structure Own (n : Nat) (w : World σ) (h : Handle) : Prop where
  since : n ≤ h.id
  issued : h.id < w.vm.handles.next
  loose : ¬ w.Kept h

namespace Own

variable {h : Handle}

theorem served {free : Handle → Prop} {still : Nat → Prop} (own : Own n w h)
    (served : Served free still w x) : Own n x h :=
  ⟨own.since, Nat.lt_of_lt_of_le own.issued served.vm.issued, fun kept => own.loose (served.kept.mp kept)⟩

theorem leads (own : Own n w h) (leads : Leads p w.vm.handles.next w x) : Own n x h :=
  ⟨own.since, Nat.lt_of_lt_of_le own.issued leads.issued, fun kept => own.loose (leads.kept own.issued kept)⟩

end Own

structure Within (p : Rights σ) (n : Nat) (w₀ w : World σ) : Prop where
  since : n ≤ w₀.vm.handles.next
  ready : Ready p w₀
  leads : Leads p n w₀ w

namespace Within

theorem start (ready : Ready p w) : Within p w.vm.handles.next w w :=
  ⟨Nat.le_refl _, ready, .refl w⟩

theorem still (within : Within p n w₀ w) : Ready p w := within.leads.ready within.ready

theorem next (within : Within p n w₀ w) : n ≤ w.vm.handles.next :=
  Nat.le_trans within.since within.leads.issued

theorem tidy (within : Within p n w₀ w) (tidy : Tidy w x) : Within p n w₀ x :=
  { within with leads := tidy.leads within.leads within.next within.still.issued within.still.there }

theorem calm (within : Within p n w₀ w) (calm : Calm w x) : Within p n w₀ x :=
  within.tidy calm.served

theorem served {free : Handle → Prop} (within : Within p n w₀ w)
    (served : Served free (fun _ => True) w x) (own : ∀ h, free h → Own n w h) : Within p n w₀ x :=
  { within with
    leads := served.leads within.leads (fun h free => ⟨Or.inl (own h free).since, (own h free).loose⟩)
      fun _ _ => trivial }

theorem own {h : Handle} (within : Within p n w₀ w) (fresh : Fresh w h x) (records : x.records = w.records) :
    Own n x h where
  since := Nat.le_trans within.next fresh.1
  issued := fresh.2
  loose := by
    rintro ⟨r, mem, keeps⟩
    exact Nat.not_le_of_lt (within.still.issued h ⟨r, records ▸ mem, keeps⟩) fresh.1

theorem further {m : Nat} (within : Within p n w₀ w) (fewer : n ≤ m) (leads : Leads p m w x) :
    Within p n w₀ x :=
  { within with leads := within.leads.trans (leads.widen fewer) }

theorem respects {c : Act σ ε α} (within : Within p n w₀ w) (respects : Respects p c) :
    Action.Ends (fun _ => True) c w fun _ x => Within p n w₀ x :=
  (respects w within.still).weaken fun _ _ leads => within.further within.next leads

theorem respectsOwn {c : Act σ ε α} (within : Within p n w₀ w) (respects : Respects p c) :
    Action.Ends (fun _ => True) c w fun _ x => Within p n w₀ x ∧ ∀ h, Own n w h → Own n x h :=
  (respects w within.still).weaken fun _ _ leads =>
    ⟨within.further within.next leads, fun _ own => own.leads leads⟩

theorem looks {c : Step (World σ) α} (within : Within p n w₀ w) (looks : Step.Looks c) :
    Step.Ends (fun _ => True) c w fun _ x => Within p n w₀ x :=
  (looks w).weaken fun _ _ same => same ▸ within

theorem looksAct {c : Act σ ε α} (within : Within p n w₀ w) (looks : Action.Looks c) :
    Action.Ends (fun _ => True) c w fun _ x => Within p n w₀ x :=
  Step.Ends.weaken (looks w) fun _ _ same => same ▸ within

theorem bind {β : Type} {c : Act σ ε α} {f : α → Act σ ε β}
    (first : Action.Ends (fun _ => True) c w fun _ x => Within p n w₀ x)
    (rest : ∀ a x, Within p n w₀ x → Action.Ends (fun _ => True) (f a) x fun _ y => Within p n w₀ y) :
    Action.Ends (fun _ => True) (c >>= f) w fun _ y => Within p n w₀ y :=
  Action.endsBind.mpr (first.weaken fun _ x within => ⟨fun a _ => rest a x within, fun _ _ => within⟩)

theorem when {b : Prop} [Decidable b] {c : Act σ ε PUnit} {rest : Act σ ε α} (within : Within p n w₀ w)
    (first : Action.Ends (fun _ => True) c w fun _ x => Within p n w₀ x)
    (last : ∀ x, Within p n w₀ x → Action.Ends (fun _ => True) rest x fun _ y => Within p n w₀ y) :
    Action.Ends (fun _ => True) (if b then c >>= fun _ => rest else rest) w fun _ y => Within p n w₀ y := by
  split
  next => exact bind first fun _ => last
  next => exact last w within

theorem lifts {c : Step (World σ) α}
    (ends : Step.Ends (fun _ => True) c w fun _ x => Within p n w₀ x) :
    Action.Ends (fun _ => True) (lift c : Act σ ε α) w fun _ x => Within p n w₀ x :=
  Action.endsLift.mpr ends

end Within

theorem respectsOf {c : Act σ ε α}
    (ends : ∀ n w₀ w, Within p n w₀ w → Action.Ends (fun _ => True) c w fun _ x => Within p n w₀ x) :
    Respects p c := fun w ready =>
  (ends _ w w (.start ready)).weaken fun _ _ within => within.leads

theorem serveWithin (within : Within p n w₀ w) (s : Service) :
    Action.Ends (fun _ => True) (serve s) w fun _ x => Within p n w₀ x := by
  refine (serveEnds s).weaken fun _ x ⟨same, _⟩ => ?_
  have vm : x.vm = w.vm := by rw [same]
  exact within.calm ⟨vm ▸ .refl, by rw [vm]; exact same⟩

theorem mapErrorWithin {δ : Type} {f : ε → δ} {c : Act σ ε α}
    (ends : Action.Ends (fun _ => True) c w fun _ x => Within p n w₀ x) :
    Action.Ends (fun _ => True) (Action.mapError f c) w fun _ x => Within p n w₀ x :=
  Action.endsMapError.mpr ends

theorem callCheckedRespects {invoke : Invoker σ} (respects : Invoker.Respects p invoke)
    (m target : MethodAddress) (receiver : Option Ref) (args : List (Option Ref)) :
    Respects p (callChecked invoke m target receiver args) := by
  refine respectsOf fun n w₀ w within => ?_
  refine Within.bind (Within.lifts (within.looks (looksDescriptor m))) fun d x within => ?_
  refine Within.bind (within.looksAct (Action.looksMapError (Action.looksOfExcept _))) fun shorty x within => ?_
  refine Within.bind (within.looksAct (looksCheckReceiver m receiver)) fun receiver x within => ?_
  refine Within.bind (within.looksAct (Boxing.looksConvertArguments m shorty args)) fun values x within => ?_
  have invoked : Action.Ends (fun _ => True) (invoke.serve target receiver values) x fun _ y =>
      Within p n w₀ y :=
    Within.bind (serveWithin within .invoke) fun _ y within => within.respects (respects _ _ _)
  refine Within.bind (mapErrorWithin invoked) fun result y within => mapErrorWithin ?_
  exact (Boxing.wrapResultCalm result y).weaken fun _ _ calm => within.calm calm

theorem callUnhookedRespects {invoke : Invoker σ} (respects : Invoker.Respects p invoke)
    (m : MethodAddress) (receiver : Option Ref) (args : List (Option Ref)) :
    Respects p (callUnhooked invoke m receiver args) := by
  refine respectsOf fun n w₀ w within => ?_
  unfold callUnhooked
  exact Within.bind (within.looksAct fun _ => rfl) fun v x within =>
    within.respects (callCheckedRespects respects _ _ _ _)

theorem withLocalsRespects {targets : List (Option Ref)} {action : List Handle → Act σ ε α}
    (inner : ∀ hs, Respects p (action hs)) : Respects p (withLocals targets action) := by
  refine respectsOf fun n w₀ w within => ?_
  refine Action.endsLiftBind.mpr ((createAllCalm targets w).weaken fun hs x ⟨calm, later⟩ => ?_)
  have own : ∀ h ∈ hs, Own n x h := fun h mem => within.own (later h mem) calm.records
  refine Action.endsLiftBind.mpr (Step.Ends.weaken ((within.calm calm).respectsOwn (inner hs))
    fun outcome y ⟨within, kept⟩ => ?_)
  refine Action.endsLiftBind.mpr ((releaseAllServed fun h mem => mem).weaken fun _ z released => ?_)
  exact Action.endsOfExcept.mpr (within.served released fun h mem => kept h (own h mem))

theorem initClassWithin (within : Within p n w₀ w) (c : ClassId) :
    Action.Ends (fun _ => True) (initClass c) w fun _ x => Within p n w₀ x :=
  (initClassEnds trivial fun _ => trivial).weaken fun _ _ ⟨calm, _⟩ => within.calm calm

def callFound (invoke : Invoker σ) (m target : MethodAddress) (s : ClassId) (receiver : Handle)
    (args : List Handle) : Act σ CallError (Option Ref) := do
  match ← lift (resolve receiver) with
  | none => throw (.nullReceiver (← lift (describe m)))
  | some r =>
    let args ← lift (resolveAll args)
    if ← lift (isInstance r s) then
      callChecked invoke target target (some r) args
    else
      throw (.receiverMismatch (← lift (className s)) (← lift (typeName r)))

theorem callPinnedRespects {invoke : Invoker σ} (respects : Invoker.Respects p invoke)
    (m : MethodAddress) (superclass : ClassId) (receiver : Handle) (args : List Handle) :
    Respects p (callPinned invoke m superclass receiver args) := by
  refine respectsOf fun n w₀ w within => ?_
  refine Within.bind (Within.lifts (within.looks (looksMethod m))) fun info x within => ?_
  refine Within.bind (within.looksAct fun _ => rfl) fun v x within => ?_
  split
  next => exact within.looksAct (Action.looksThrow _)
  next index _ =>
    refine Within.bind (Within.lifts (within.looks (looksDescriptor _))) fun d x within => ?_
    refine within.when (mapErrorWithin (initClassWithin within superclass)) fun x within => ?_
    refine Within.bind (Within.lifts (within.looks (looksResolve receiver))) fun r x within => ?_
    split
    next =>
      exact within.looksAct (Action.looksBind (Action.looksLift (looksDescribe m)) fun _ =>
        Action.looksThrow _)
    next r =>
      refine Within.bind (Within.lifts (within.looks (looksResolveAll args))) fun args x within => ?_
      refine Within.bind (Within.lifts (within.looks (looksIsInstance r superclass))) fun fits x within => ?_
      split
      next => exact within.respects (callCheckedRespects respects _ _ _ _)
      next => exact within.looksAct (Boxing.looksThrowClass superclass r _)

theorem callInheritedRespects {invoke : Invoker σ} (respects : Invoker.Respects p invoke)
    (m : MethodAddress) (receiver : Option Ref) (args : List (Option Ref)) :
    Respects p (callInherited invoke m receiver args) := by
  refine respectsOf fun n w₀ w within => ?_
  refine Within.bind (Within.lifts (within.looks (looksDescriptor m))) fun d x within => ?_
  split
  next => exact within.looksAct (Action.looksPure _)
  next =>
    split
    next =>
      exact within.looksAct (Action.looksBind (Action.looksLift (looksDescribe m)) fun _ =>
        Action.looksThrow _)
    next =>
      refine within.respects (withLocalsRespects fun pinned => withLocalsRespects fun pinnedArgs => ?_)
      refine respectsOf fun n w₀ w within => ?_
      refine Within.bind (within.looksAct fun _ => rfl) fun v x within => ?_
      split
      next superclass r _ _ => exact within.respects (callPinnedRespects respects _ _ _ _)
      next => exact within.looksAct (Action.looksPure _)

end Detour
