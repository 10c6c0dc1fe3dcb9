import Detour.Proofs.Frame.Faults
import Detour.Proofs.Hook.Calling
import Detour.Proofs.Hook.Ledger
import Mathlib.Data.List.Perm.Basic

/-! What the interception layer makes of handles: each piece releases what it made, on every way out of it, as
long as user code does. -/
namespace Detour

open World

variable {σ α ε : Type} {mine : σ → Handle → Prop} {held : Keys}

/-! ## Looking -/

theorem descriptorKeeps (m : MethodAddress) : Keeps mine held (descriptor m : Machine σ Descriptor) :=
  Trades.looks fun _ => (descriptorEnds fun _ => trivial).weaken fun _ _ ⟨same, _⟩ => same

theorem recordKeeps (id : Nat) : Keeps mine held (record id : Machine σ InstalledHook) :=
  Trades.looks fun _ => (recordEnds fun _ => trivial).weaken fun _ _ ⟨same, _⟩ => same

theorem getKeeps : Keeps mine held (get : Machine σ (World σ)) := Trades.looks fun _ => rfl

theorem methodKeeps (m : MethodAddress) : Keeps mine held (method m : Machine σ Method) :=
  (descriptorKeeps m).bind fun _ => Trades.vmLooks fun vm => by simp [Vm.method, Fault.Sober]

theorem classNameKeeps (c : ClassId) : Keeps mine held (className c : Machine σ String) :=
  Trades.vmLooks fun _ => rfl

theorem typeNameKeeps (r : Ref) : Keeps mine held (typeName r : Machine σ String) :=
  Trades.vmLooks fun _ => Step.endsBind.mpr
    ((Vm.classOfEnds (fun _ => trivial) trivial).weaken fun _ _ ⟨same, _⟩ => same)

theorem isInstanceKeeps (r : Ref) (c : ClassId) : Keeps mine held (isInstance r c : Machine σ Bool) :=
  Trades.vmLooks fun _ => Step.endsBind.mpr
    ((Vm.classOfEnds (fun _ => trivial) trivial).weaken fun _ _ ⟨same, _⟩ => same)

theorem describeKeeps (m : MethodAddress) : Keeps mine held (describe m : Machine σ String) := by
  refine (descriptorKeeps m).bind fun d => ?_
  have named (c : String) : Keeps mine held (do return c ++ "." ++ (← method m).name : Machine σ String) :=
    (methodKeeps m).bind fun _ => .done rfl
  cases d.declaringClass with
  | none => exact named "?"
  | some c => exact (classNameKeeps c).bind named

theorem unboxKeeps (r : Ref) : Keeps mine held (vmStep (Vm.unbox r) : Machine σ (Option Value)) :=
  Trades.vmLooks fun _ => (Vm.unboxEnds fun _ => trivial).weaken fun _ _ ⟨same, _⟩ => same

theorem elementsKeeps (r : Ref) : Keeps mine held (vmStep (Vm.elements r) : Machine σ (List (Option Ref))) :=
  Trades.vmLooks fun _ =>
    (Vm.elementsEnds (fun _ => trivial) fun _ _ _ => trivial).weaken fun _ _ ⟨same, _⟩ => same

/-! ## Services -/

theorem allocateKeeps (o : Obj) : Keeps mine held (vmStep (Vm.allocate o) : Machine σ Ref) :=
  Trades.vm fun _ => (Vm.allocateEnds trivial o).weaken fun _ _ made => ⟨made.calm.keys made.next, made.next⟩

theorem serveKeeps (s : Service) : Keeps mine held (serve s : Act σ RuntimeError Unit).run :=
  Trades.still fun w => (serveEnds s).weaken fun _ x ⟨same, _⟩ => by
    rw [same]
    exact ⟨rfl, rfl, rfl, rfl⟩

theorem boxKeeps (v : Value) : Keeps mine held (box v : Act σ RuntimeError Ref).run := by
  refine (serveKeeps .box).act (fun _ => Trades.lift (Trades.vm fun vm => ?_)) fun _ => rfl
  exact (Vm.boxEnds trivial trivial v).weaken fun _ _ made => ⟨made.calm.keys made.next, made.next⟩

theorem allocateArrayKeeps (length : Nat) : Keeps mine held (allocateArray length : Act σ RuntimeError Ref).run :=
  (serveKeeps .array).act (fun _ => Trades.lift (allocateKeeps _)) fun _ => rfl

theorem initializeKeeps (c : ClassId) : Keeps mine held (vmAction (Vm.initClass c) : Act σ RuntimeError Unit).run :=
  Trades.vm fun _ => Step.Ends.weaken (Vm.initClassEnds trivial fun _ => trivial) fun _ _ ⟨calm, next, _⟩ =>
    ⟨calm.keys next, next⟩

theorem initClassKeeps (c : ClassId) : Keeps mine held (initClass c : Act σ RuntimeError Unit).run :=
  (serveKeeps .init).act (fun _ => initializeKeeps c) fun _ => rfl

theorem Fault.OfFrame.sober {f : Fault} (fault : f.OfFrame) : f.Sober := by
  cases f <;> trivial

/-! ## Boxing -/

namespace Boxing

variable {frame : Frame}

theorem referenceKeeps (s : Slot) : Keeps mine held (Step.ofExcept (frame.referenceAt s) : Machine σ (Option Ref)) :=
  Trades.ofExcept fun _ failed => (Frame.referenceFault failed).sober

theorem valueKeeps (s : Slot) : Keeps mine held (Step.ofExcept (frame.valueAt s) : Machine σ Value) :=
  Trades.ofExcept fun _ failed => (Frame.valueFault failed).sober

theorem pinReferencesTrades (index : Nat) (slots : List Slot) :
    Trades mine [] (pinReferences frame index slots : Machine σ (List (Nat × Handle))) fun refs =>
      locals (refs.map (·.2)) := by
  induction slots generalizing index with
  | nil => exact .done rfl
  | cons s slots ih =>
    unfold pinReferences
    refine Trades.whether (fun _ => ?_) fun _ => ih (index + 1)
    refine (referenceKeeps s).bind fun r => (Trades.createLocal r).bind fun h => ?_
    have later := ((ih (index + 1)).frame (locals [h])).perm (.refl _) fun _ => List.perm_append_comm
    exact later.bind fun refs => .done rfl

theorem elementKeeps (s : Slot) {references : List Handle} (pinned : ∀ h ∈ references, (h, .localHandle) ∈ held) :
    Keeps mine held (element frame s references : Act σ RuntimeError (Option Ref)).run := by
  unfold element
  split
  next =>
    split
    next h _ => exact Trades.lift (Trades.resolve (pinned h (by simp)))
    next => exact .done rfl
  next => exact (valueKeeps s).lifted fun v => (boxKeeps v).map

theorem putElementKeeps {array : Handle} (pinned : (array, .localHandle) ∈ held) (index : Nat) (e : Option Ref) :
    Keeps mine held (putElement array index e : Act σ RuntimeError Unit).run := by
  refine (Trades.resolve pinned).lifted fun target => ?_
  cases target with
  | none => exact .throws _ rfl
  | some a =>
    refine Trades.lift (Trades.vm fun vm => ?_)
    refine (Vm.setElementEnds (fun _ => trivial) (fun _ _ _ => trivial) (fun _ _ _ => trivial)
      fun _ _ _ => trivial).weaken fun _ x ⟨_, _, same⟩ => ?_
    rw [same]
    exact ⟨rfl, rfl⟩

theorem fillArrayKeeps {array : Handle} (own : (array, .localHandle) ∈ held) (index : Nat) (slots : List Slot)
    {references : List Handle} (pinned : ∀ h ∈ references, (h, .localHandle) ∈ held) :
    Keeps mine held (fillArray frame array index slots references : Act σ RuntimeError Unit).run := by
  induction slots generalizing index references with
  | nil => exact .done rfl
  | cons s slots ih =>
    rw [fillArrayCons]
    refine (elementKeeps s pinned).act (fun e => ?_) fun _ => rfl
    refine (putElementKeeps own index e).act (fun _ => ih (index + 1) fun h mem => ?_) fun _ => rfl
    split at mem
    next => exact pinned h (List.mem_of_mem_drop mem)
    next => exact pinned h mem

theorem boxArrayTrades (params : List Slot) {references : List Handle}
    (pinned : ∀ h ∈ references, (h, .localHandle) ∈ held) :
    Trades mine held (boxArray frame params references : Act σ RuntimeError Handle).run
      (whichever (fun h => locals [h] ++ held) held) := by
  refine (allocateArrayKeeps _).act (fun array => ?_) fun _ => rfl
  refine ((Trades.createLocal (some array)).frame held).lifted fun h => ?_
  have filled : Keeps mine (locals [h] ++ held)
      (fillArray frame h 0 params references : Act σ RuntimeError Unit).attempt :=
    fillArrayKeeps (by simp) 0 params fun g mem => List.mem_append_right _ (pinned g mem)
  refine filled.lifted fun outcome => ?_
  cases outcome with
  | ok => exact .done rfl
  | error e =>
    refine ((Trades.releaseHandle h .localHandle).frame held).lifted fun _ => ?_
    exact .throws e rfl

theorem ofFrameTrades (slots : List Slot) (isStatic empties : Bool) :
    Trades mine [] (ofFrame frame slots isStatic empties : Act σ RuntimeError BoxedFrame).run
      (whichever (fun b => locals b.handles) []) := by
  refine (pinReferencesTrades 0 slots).lifted fun refs => ?_
  generalize (if isStatic = true then 0 else 1) = first
  dsimp only
  split
  next => exact .done (by simp [whichever, BoxedFrame.handles])
  next =>
    have pinned : ∀ h ∈ (refs.filter (first ≤ ·.1)).map (·.2),
        (h, HandleKind.localHandle) ∈ locals (refs.map (·.2)) := by
      intro h mem
      obtain ⟨e, found, rfl⟩ := List.mem_map.mp mem
      simp only [locals, List.mem_map]
      exact ⟨e.2, ⟨e, (List.mem_filter.mp found).1, rfl⟩, rfl⟩
    refine Trades.lifted (c := (boxArray frame _ _).attempt) (boxArrayTrades _ pinned) fun outcome => ?_
    cases outcome with
    | ok h =>
      refine .hands ?_
      simp only [whichever, BoxedFrame.handles, Option.toList_some, locals, List.map_append]
      exact List.perm_append_comm
    | error e => exact (Trades.releaseAll _ _).lifted fun _ => .throws e rfl

theorem fixReferencesKeeps (slots : List Slot) {references : List (Nat × Handle)}
    (pinned : ∀ e ∈ references, (e.2, .localHandle) ∈ held) :
    Keeps mine held (fixReferences frame slots references : Machine σ Frame) := by
  induction references generalizing frame with
  | nil => exact .done rfl
  | cons e references ih =>
    have later (frame : Frame) : Keeps mine held (fixReferences frame slots references : Machine σ Frame) :=
      ih fun e mem => pinned e (List.mem_cons_of_mem _ mem)
    unfold fixReferences
    refine (Trades.resolve (pinned e (by simp))).bind fun r => ?_
    split
    next s _ => exact (Trades.ofExcept fun _ failed => (Frame.storeSlotFault failed).sober).bind later
    next => exact later frame

/-! ## Conversions -/

theorem throwsType (r : Ref) (f : String → ε) :
    Keeps mine held (do throw (f (← lift (typeName r))) : Act σ ε α).run :=
  (typeNameKeeps r).lifted fun _ => .throws _ rfl

theorem throwsClass (c : ClassId) (r : Ref) (f : String → String → ε) :
    Keeps mine held (do throw (f (← lift (className c)) (← lift (typeName r))) : Act σ ε α).run :=
  (classNameKeeps c).lifted fun _ => throwsType r _

theorem convertArgumentKeeps (m : MethodAddress) (index : Nat) (declared : Tag) (value : Option Ref) :
    Keeps mine held (convertArgument m index declared value : Act σ CallError Value).run := by
  refine (methodKeeps m).lifted fun info => ?_
  dsimp only
  split
  next =>
    split
    next r c _ =>
      refine (isInstanceKeeps r c).lifted fun fits => ?_
      split
      next => exact .done rfl
      next => exact throwsClass c r _
    next => exact .done rfl
  next =>
    split
    next => exact .throws _ rfl
    next r =>
      refine (unboxKeeps r).lifted fun stored => ?_
      split
      next => exact throwsType r _
      next =>
        split
        next => exact .throws _ rfl
        next => exact .done rfl

theorem convertEachKeeps (m : MethodAddress) (tags : List Tag) (index : Nat) (args : List (Option Ref)) :
    Keeps mine held (convertEach m index tags args : Act σ CallError (List Value)).run := by
  induction tags generalizing index args with
  | nil => exact .done rfl
  | cons t tags ih =>
    cases args with
    | nil => exact .done rfl
    | cons a args =>
      refine (convertArgumentKeeps m index t a).act (fun v => ?_) fun _ => rfl
      exact (ih (index + 1) args).act (fun vs => .done rfl) fun _ => rfl

theorem convertArgumentsKeeps (m : MethodAddress) (shorty : Shorty) (args : List (Option Ref)) :
    Keeps mine held (convertArguments m shorty args : Act σ CallError (List Value)).run := by
  unfold convertArguments
  split
  next => exact .throws _ rfl
  next => exact convertEachKeeps m shorty.params 0 args

theorem convertResultKeeps (m : MethodAddress) (declared : Tag) (result : Option Ref) :
    Keeps mine held (convertResult m declared result : Act σ CallError Value).run := by
  unfold convertResult
  split
  next => exact .done rfl
  next =>
    refine (methodKeeps m).lifted fun info => ?_
    split
    next r c _ =>
      refine (isInstanceKeeps r c).lifted fun fits => ?_
      split
      next => exact .done rfl
      next => exact throwsClass c r _
    next => exact .done rfl
  next =>
    split
    next => exact .throws _ rfl
    next r =>
      refine (unboxKeeps r).lifted fun stored => ?_
      split
      next => exact throwsType r _
      next =>
        split
        next => exact .throws _ rfl
        next => exact .done rfl

theorem wrapResultKeeps (v : Value) :
    Keeps mine held (wrapResult v : Act σ RuntimeError (Option Ref)).run := by
  cases v with
  | void | reference => exact .done rfl
  | _ => exact (boxKeeps _).map

end Boxing

/-! ## Calls past a hook -/

theorem checkReceiverKeeps (m : MethodAddress) (receiver : Option Ref) :
    Keeps mine held (checkReceiver m receiver : Act σ CallError (Option Ref)).run := by
  refine (descriptorKeeps m).lifted fun d => ?_
  split
  next => exact .done rfl
  next =>
    split
    next => exact (describeKeeps m).lifted fun _ => .throws _ rfl
    next r =>
      split
      next => exact .done rfl
      next c _ =>
        refine (isInstanceKeeps r c).lifted fun fits => ?_
        split
        next => exact .done rfl
        next => exact Boxing.throwsClass c r _

def Invoker.Balanced (mine : σ → Handle → Prop) (invoke : Invoker σ) : Prop :=
  ∀ m receiver args, Keeps mine [] (invoke m receiver args).run

section Calls

variable {invoke : Invoker σ}

theorem callCheckedKeeps (balanced : invoke.Balanced mine) (m target : MethodAddress) (receiver : Option Ref)
    (args : List (Option Ref)) : Keeps mine held (callChecked invoke m target receiver args).run := by
  refine (descriptorKeeps m).lifted fun d => ?_
  refine Trades.act (Trades.mapError (Trades.actOfExcept d.shorty)) (fun shorty => ?_) fun _ => rfl
  refine (checkReceiverKeeps m receiver).act (fun receiver => ?_) fun _ => rfl
  refine (Boxing.convertArgumentsKeeps m shorty args).act (fun values => ?_) fun _ => rfl
  have invoked : Keeps mine held (invoke.serve target receiver values).run :=
    (serveKeeps .invoke).act (fun _ => (balanced target receiver values).idle) fun _ => rfl
  refine invoked.mapError.act (fun result => ?_) fun _ => rfl
  exact (Boxing.wrapResultKeeps result).mapError

theorem callUnhookedKeeps (balanced : invoke.Balanced mine) (m : MethodAddress) (receiver : Option Ref)
    (args : List (Option Ref)) : Keeps mine held (callUnhooked invoke m receiver args).run :=
  Trades.got fun _ => callCheckedKeeps balanced m _ receiver args

theorem withLocalsKeeps {targets : List (Option Ref)} {action : List Handle → Act σ ε α}
    (inner : ∀ hs, Keeps mine (locals hs ++ held) (action hs).run) :
    Keeps mine held (withLocals targets action).run := by
  refine ((Trades.createAll targets).frame held).lifted fun hs => ?_
  refine Trades.lifted (c := (action hs).attempt) (inner hs) fun outcome => ?_
  exact ((Trades.releaseAll hs .localHandle).frame held).lifted fun _ => .actOfExcept outcome

theorem callPinnedKeeps (balanced : invoke.Balanced mine) (m : MethodAddress) (superclass : ClassId)
    {receiver : Handle} {args : List Handle} (first : (receiver, .localHandle) ∈ held)
    (rest : ∀ h ∈ args, (h, .localHandle) ∈ held) :
    Keeps mine held (callPinned invoke m superclass receiver args).run := by
  refine (methodKeeps m).lifted fun info => ?_
  refine Trades.got fun w => ?_
  split
  next => exact .throws _ rfl
  next index _ =>
    have enters : Keeps mine held (callFound invoke m (.live index) superclass receiver args).run := by
      refine (Trades.resolve first).lifted fun r => ?_
      split
      next => exact (describeKeeps m).lifted fun _ => .throws _ rfl
      next r =>
        refine (Trades.resolveAll rest).lifted fun args => ?_
        refine (isInstanceKeeps r superclass).lifted fun fits => ?_
        split
        next => exact callCheckedKeeps balanced _ _ _ _
        next => exact Boxing.throwsClass superclass r _
    refine (descriptorKeeps _).lifted fun d => ?_
    split
    next => exact (initClassKeeps superclass).mapError.act (fun _ => enters) fun _ => rfl
    next => exact enters

theorem callInheritedKeeps (balanced : invoke.Balanced mine) (m : MethodAddress) (receiver : Option Ref)
    (args : List (Option Ref)) : Keeps mine held (callInherited invoke m receiver args).run := by
  refine (descriptorKeeps m).lifted fun d => ?_
  split
  next => exact .done rfl
  next =>
    split
    next => exact (describeKeeps m).lifted fun _ => .throws _ rfl
    next =>
      refine withLocalsKeeps fun pinned => withLocalsKeeps fun pinnedArgs => ?_
      refine Trades.got fun w => ?_
      split
      next => exact callPinnedKeeps balanced m _ (by simp) fun h mem => by simp [mem]
      next => exact .done rfl

end Calls

/-! ## The view that callbacks share -/

namespace SharedCall

variable {s : SharedCall} {h : Handle}

theorem swapTrades {held : List Handle} {old : Handle} {rest : List Handle} {put : Handle → SharedCall}
    (r : Option Ref) (before : held.Perm (old :: rest)) (after : ∀ h, (h :: rest).Perm (put h).handles) :
    Trades mine (locals held) (do
      let h ← createLocal r
      releaseHandle old
      return put h : Machine σ SharedCall) fun t => locals t.handles := by
  refine (((Trades.createLocal r).frame (locals (old :: rest))).bind fun h => ?_).perm
    (localsPerm before) fun _ => .refl _
  have release : Trades mine (locals [old]) (releaseHandle old : Machine σ Unit) fun _ => [] :=
    Trades.releaseHandle old .localHandle
  have released := release.frame (locals (h :: rest))
  refine (released.bind fun _ => ?_).perm (.swap ..) fun _ => .refl _
  exact .hands (localsPerm (after h))

theorem resultFirst : s.handles.Perm (s.result :: (s.receiver :: s.args)) :=
  List.perm_append_singleton _ _

theorem withResultTrades (r : Option Ref) :
    Trades mine (locals s.handles) (s.withResult r : Machine σ SharedCall) fun t => locals t.handles :=
  swapTrades r resultFirst fun h => (resultFirst (s := { s with result := h })).symm

theorem replaceReceiverTrades (r : Option Ref) :
    Trades mine (locals s.handles) (s.replaceReceiver r : Machine σ SharedCall) fun t => locals t.handles :=
  swapTrades r (.refl _) fun _ => .refl _

theorem replaceArgumentTrades (index : Nat) (r : Option Ref) :
    Trades mine (locals s.handles) (s.replaceArgument index r : Machine σ SharedCall) fun t =>
      locals t.handles := by
  cases at_ : s.args[index]? with
  | none =>
    rw [replaceArgumentPast at_]
    exact .done rfl
  | some old =>
    obtain ⟨below, rfl⟩ := List.getElem?_eq_some_iff.mp at_
    unfold replaceArgument
    rw [at_]
    have others (list : List Handle) : (s.receiver :: list ++ [s.result]).Perm (list ++ [s.receiver, s.result]) :=
      List.perm_middle.symm.trans (by simp)
    have before : s.handles.Perm (s.args[index] :: (s.args.eraseIdx index ++ [s.receiver, s.result])) :=
      (others _).trans ((List.getElem_cons_eraseIdx_perm below).symm.append_right _)
    refine swapTrades r before fun h => ?_
    exact ((List.set_perm_cons_eraseIdx below h).symm.append_right _).trans (others _).symm

theorem answerWithTrades (r : Option Ref) :
    Trades mine (locals s.handles) (s.answerWith r : Machine σ SharedCall) fun t => locals t.handles :=
  (withResultTrades r).bind fun _ => .done rfl

theorem failWithTrades (e : CallError) :
    Trades mine (locals s.handles) (s.failWith e : Machine σ SharedCall) fun t => locals t.handles :=
  (withResultTrades none).bind fun _ => .done rfl

theorem clearOutcomeTrades :
    Trades mine (locals s.handles) (s.clearOutcome : Machine σ SharedCall) fun t => locals t.handles :=
  (withResultTrades none).bind fun _ => .done rfl

theorem settleTrades (outcome : Except CallError (Option Ref)) :
    Trades mine (locals s.handles) (s.settle outcome : Machine σ SharedCall) fun t => locals t.handles := by
  cases outcome with
  | ok r => exact withResultTrades r
  | error e => exact .done rfl

theorem createTrades (m : MethodAddress) (receiver : Option Ref) (args : List (Option Ref)) :
    Trades mine [] (create m receiver args : Machine σ SharedCall) fun s => locals s.handles := by
  refine (Trades.createLocal receiver).bind fun h => ?_
  refine ((Trades.createAll args).frame (locals [h])).bind fun hs => ?_
  refine ((Trades.createLocal none).frame _).bind fun last => .hands ?_
  have order : ([last] ++ (hs ++ [h])).Perm (h :: hs ++ [last]) :=
    List.perm_append_comm.trans ((List.perm_append_singleton h hs).append_right _)
  simpa [handles] using localsPerm order

theorem releaseTrades : Trades mine (locals s.handles) (s.release : Machine σ Unit) fun _ => [] :=
  Trades.releaseAll s.handles .localHandle

theorem resultKeeps : Keeps mine (locals s.handles) (s.resultRef : Machine σ (Option Ref)) :=
  Trades.resolveLocal (by simp [handles])

theorem saveOutcomeTrades : Trades mine (locals s.handles) (s.saveOutcome : Machine σ SavedOutcome) fun last =>
    locals (last.result :: s.handles) :=
  resultKeeps.bind fun r => ((Trades.createLocal r).frame (locals s.handles)).bind fun _ => .done rfl

theorem rollBackTrades (last : SavedOutcome) :
    Trades mine (locals (last.result :: s.handles)) (s.rollBack last : Machine σ SharedCall) fun t =>
      locals t.handles := by
  have release : Trades mine (locals [s.result]) (releaseHandle s.result : Machine σ Unit) fun _ => [] :=
    Trades.releaseHandle s.result .localHandle
  have released := release.frame (locals (last.result :: s.receiver :: s.args))
  have order : (last.result :: s.handles).Perm (s.result :: last.result :: s.receiver :: s.args) :=
    (resultFirst.cons _).trans (.swap ..)
  refine (released.bind fun _ => .hands ?_).perm (localsPerm order) fun _ => .refl _
  exact localsPerm (List.perm_append_singleton last.result (s.receiver :: s.args)).symm

theorem outcomeKeeps :
    Keeps mine (locals s.handles) (s.outcome : Machine σ (Except CallError (Option Ref))) := by
  unfold outcome
  split
  next => exact .done rfl
  next => exact resultKeeps.bind fun _ => .done rfl

end SharedCall

inductive CallbackCode.Balanced (mine : σ → Handle → Prop) : CallbackCode σ → Prop
  | ends (outcome : Except CallError Unit) : Balanced mine fun s => pure (outcome, s)
  | runs {τ : Type} {own : SharedCall → Machine σ τ} {rest : τ → CallbackCode σ}
    (keeps : ∀ s, Keeps mine (locals s.handles) (own s)) (later : ∀ a, Balanced mine (rest a)) :
    Balanced mine fun s => own s >>= fun a => rest a s
  | receives (r : Option Ref) {rest : CallbackCode σ} (later : Balanced mine rest) :
    Balanced mine fun s => s.replaceReceiver r >>= rest
  | replaces (index : Nat) (r : Option Ref) {rest : CallbackCode σ} (later : Balanced mine rest) :
    Balanced mine fun s => s.replaceArgument index r >>= rest
  | answers (r : Option Ref) {rest : CallbackCode σ} (later : Balanced mine rest) :
    Balanced mine fun s => s.answerWith r >>= rest
  | fails (e : CallError) {rest : CallbackCode σ} (later : Balanced mine rest) :
    Balanced mine fun s => s.failWith e >>= rest

theorem CallbackCode.Balanced.trades {code : CallbackCode σ} (balanced : CallbackCode.Balanced mine code)
    (s : SharedCall) :
    Trades mine (locals s.handles) (code s) fun r => locals r.2.handles := by
  induction balanced generalizing s with
  | ends => exact .done rfl
  | runs keeps _ ih => exact (keeps s).bind fun a => ih a s
  | receives r _ ih => exact (SharedCall.replaceReceiverTrades r).bind ih
  | replaces index r _ ih => exact (SharedCall.replaceArgumentTrades index r).bind ih
  | answers r _ ih => exact (SharedCall.answerWithTrades r).bind ih
  | fails e _ ih => exact (SharedCall.failWithTrades e).bind ih

structure Guest.Balanced (mine : σ → Handle → Prop) (g : Guest σ) : Prop where
  body : ∀ invoke, Invoker.Balanced mine invoke → ∀ index receiver args,
    Keeps mine [] (g.body index invoke receiver args).run
  handler : ∀ invoke, Invoker.Balanced mine invoke → ∀ id i,
    Keeps mine (locals i.boxed.handles) (g.handler id invoke i).run
  before : ∀ invoke, Invoker.Balanced mine invoke → ∀ id, CallbackCode.Balanced mine (g.before id invoke)
  after : ∀ invoke, Invoker.Balanced mine invoke → ∀ id, CallbackCode.Balanced mine (g.after id invoke)

/-! ## Hooked calls -/

namespace BoxedFrame

variable {b : BoxedFrame}

theorem receiverKeeps : Detour.Keeps mine (locals b.handles) (b.receiver : Machine σ (Option Ref)) := by
  unfold receiver
  split
  next index h _ _ shape => exact Trades.resolveLocal (by simp [handles, shape])
  next => exact .done rfl

theorem argumentsKeeps : Detour.Keeps mine (locals b.handles) (b.arguments : Machine σ (List (Option Ref))) := by
  have array : Detour.Keeps mine (locals b.handles) (b.arrayRef : Machine σ (Option Ref)) := by
    unfold arrayRef
    split
    next h is => exact Trades.resolveLocal (by simp [handles, is])
    next => exact .done rfl
  refine array.bind fun r => ?_
  cases r with
  | none => exact .done rfl
  | some r => exact elementsKeeps r

end BoxedFrame

section Hooked

variable {g : Guest σ} {invoke : Invoker σ} {i : HookedCall}

theorem HookedCall.methodKeeps : Keeps mine held (i.method : Machine σ MethodAddress) :=
  (recordKeeps i.record).bind fun _ => .done rfl

theorem HookedCall.keptKeeps {f : InstalledHook → Option Handle} (among : ∀ r h, f r = some h → h ∈ r.handles) :
    Keeps mine held (do
      match f (← i.hook) with
      | some h => resolve h
      | none => return none : Machine σ (Option Ref)) := by
  intro others w ledger
  refine Step.endsBind.mpr ((recordEnds fun _ => trivial).weaken fun r x ⟨same, found⟩ => ?_)
  subst same
  split
  next h is =>
    have live := ledger.recordedLive ⟨r, List.mem_of_getElem? found, among r h is⟩
    exact (resolveLive live).weaken fun _ _ same => same ▸ ledger
  next => exact ledger

theorem HookedCall.reflectedKeeps : Keeps mine held (i.reflected : Machine σ (Option Ref)) :=
  HookedCall.keptKeeps (f := fun r => some r.reflected) fun r h is => by
    cases is
    exact List.mem_cons_self ..

theorem HookedCall.proceedKeeps (balanced : invoke.Balanced mine) (receiver : Option Ref)
    (args : List (Option Ref)) : Keeps mine held (i.proceed invoke receiver args).run :=
  HookedCall.methodKeeps.lifted fun m => callUnhookedKeeps balanced m receiver args

namespace Chain

theorem runBeforesTrades (guest : g.Balanced mine) (balanced : invoke.Balanced mine)
    (hooks ran : List Callback) (s : SharedCall) :
    Trades mine (locals s.handles) (runBefores g invoke hooks ran s) fun r => locals r.2.handles := by
  induction hooks generalizing ran s with
  | nil => exact .done rfl
  | cons h hooks ih =>
    unfold runBefores
    refine ((guest.before invoke balanced h.id).trades s).bind fun r => ?_
    obtain ⟨outcome, t⟩ := r
    cases outcome with
    | error e => exact SharedCall.clearOutcomeTrades.bind fun t => ih (h :: ran) t
    | ok =>
      dsimp only
      split
      next => exact .done rfl
      next => exact ih (h :: ran) t

theorem runAftersTrades (guest : g.Balanced mine) (balanced : invoke.Balanced mine)
    (hooks : List Callback) (s : SharedCall) :
    Trades mine (locals s.handles) (runAfters g invoke hooks s) fun t => locals t.handles := by
  induction hooks generalizing s with
  | nil => exact .done rfl
  | cons h hooks ih =>
    unfold runAfters
    refine SharedCall.saveOutcomeTrades.bind fun last => ?_
    have beside := ((guest.after invoke balanced h.id).trades s).frame (locals [last.result])
    have saved (s : SharedCall) : (locals (last.result :: s.handles)).Perm (locals s.handles ++ locals [last.result]) :=
      (List.perm_append_singleton _ _).symm
    refine (beside.perm (saved s) fun r => (saved r.2).symm).bind fun r => ?_
    obtain ⟨outcome, t⟩ := r
    cases outcome with
    | error e => exact (SharedCall.rollBackTrades last).bind ih
    | ok =>
      exact ((Trades.releaseHandle last.result .localHandle).frame (locals t.handles)).bind fun _ => ih t

theorem aroundTrades (guest : g.Balanced mine) (balanced : invoke.Balanced mine) (hooks : List Callback)
    (s : SharedCall) :
    Trades mine (locals s.handles) (around g invoke i hooks s) fun t => locals t.handles := by
  refine (runBeforesTrades guest balanced hooks [] s).bind fun (ran, t) => ?_
  dsimp only
  split
  next => exact runAftersTrades guest balanced ran t
  next =>
    refine (Trades.resolveLocal (by simp [SharedCall.handles])).bind fun receiver => ?_
    refine (Trades.resolveLocals fun h mem => by simp [SharedCall.handles, mem]).bind fun args => ?_
    refine Trades.bind (i.proceedKeeps balanced receiver args) fun outcome => ?_
    exact (SharedCall.settleTrades outcome).bind fun t => runAftersTrades guest balanced ran t

theorem answerKeeps (guest : g.Balanced mine) (balanced : invoke.Balanced mine) (chain : Nat) :
    Keeps mine (locals i.boxed.handles) (answer g invoke chain i).run := by
  refine HookedCall.methodKeeps.lifted fun m => ?_
  refine Trades.got fun w => ?_
  refine Trades.lifted (Trades.looks fun _ => by simp [Fault.Sober]) fun c => ?_
  split
  next =>
    refine BoxedFrame.receiverKeeps.lifted fun r => ?_
    exact BoxedFrame.argumentsKeeps.lifted fun args => i.proceedKeeps balanced r args
  next =>
    refine BoxedFrame.argumentsKeeps.lifted fun args => ?_
    refine BoxedFrame.receiverKeeps.lifted fun r => ?_
    refine ((SharedCall.createTrades m r args).frame _).lifted fun s => ?_
    refine ((aroundTrades guest balanced _ s).frame _).lifted fun s => ?_
    refine (SharedCall.outcomeKeeps.frame _).lifted fun outcome => ?_
    exact (SharedCall.releaseTrades.frame _).lifted fun _ => .actOfExcept outcome

end Chain

theorem handlerKeeps (guest : g.Balanced mine) (balanced : invoke.Balanced mine) (h : Handler) :
    Keeps mine (locals i.boxed.handles) (h.answer g invoke i).run := by
  cases h with
  | plain id => exact guest.handler invoke balanced id i
  | chain id => exact Chain.answerKeeps guest balanced id

theorem answerFrameKeeps (guest : g.Balanced mine) (balanced : invoke.Balanced mine) (id : Nat) (frame : Frame) :
    Keeps mine [] (answerFrame g invoke id frame) := by
  rw [answerFrameParts]
  refine (recordKeeps id).bind fun r => ?_
  refine Trades.bind (Boxing.ofFrameTrades r.slots r.isStatic _) fun boxed => ?_
  cases boxed with
  | error e => exact .done rfl
  | ok boxed =>
    refine Trades.bind (handlerKeeps (i := ⟨id, boxed⟩) guest balanced r.interceptor.handler) fun result => ?_
    refine (Boxing.fixReferencesKeeps r.slots fun e mem => ?_).bind fun frame => ?_
    · simp only [locals, BoxedFrame.handles, List.mem_map, List.mem_append]
      exact ⟨e.2, Or.inl ⟨e, mem, rfl⟩, rfl⟩
    have converted : Keeps mine (locals boxed.handles) (convertOutcome r result : Machine σ _) := by
      cases result with
      | error e => exact .done rfl
      | ok obj => exact Boxing.convertResultKeeps _ _ obj
    exact converted.bind fun c => (Trades.releaseAll boxed.handles .localHandle).bind fun _ => .done rfl

theorem enterHookKeeps (guest : g.Balanced mine) (balanced : invoke.Balanced mine) (m : Option MethodAddress)
    (bytes : Array UInt8) : Keeps mine [] (enterHook g invoke m bytes) := by
  refine getKeeps.bind fun w => ?_
  split
  next => exact .done rfl
  next id _ =>
    refine (recordKeeps id).bind fun r => ?_
    exact (answerFrameKeeps guest balanced id _).bind fun _ => .done rfl

theorem trampolineKeeps (guest : g.Balanced mine) (balanced : invoke.Balanced mine) (m : MethodAddress)
    (bytes : Array UInt8) : Keeps mine [] (trampoline g invoke m bytes) := by
  refine (enterHookKeeps guest balanced (some m) bytes).bind fun (outcome, bytes) => ?_
  dsimp only
  split
  next => exact .done rfl
  next => exact .done rfl
  next e => exact Trades.bind (Trades.still fun _ => ⟨rfl, rfl, rfl, rfl⟩) fun _ => .done rfl

theorem managedExceptionKeeps (e : CallError) : Keeps mine held (managedException e : Machine σ RuntimeError) := by
  unfold managedException
  split
  next => exact .done rfl
  next => exact .done rfl
  next => exact (allocateKeeps _).bind fun _ => .done rfl

theorem callTrampolineKeeps (guest : g.Balanced mine) (balanced : invoke.Balanced mine) :
    (callTrampoline g invoke).Balanced mine := by
  intro m receiver args
  refine (descriptorKeeps m).lifted fun d => ?_
  split
  next => exact Trades.lift (Trades.looks fun _ => trivial)
  next shorty _ =>
    split
    next => exact Trades.lift (Trades.looks fun _ => trivial)
    next =>
      refine Trades.got fun w => ?_
      refine (Trades.ofExcept fun _ failed => (Frame.storeValuesFault failed).sober).lifted fun frame => ?_
      refine (trampolineKeeps guest balanced m frame.bytes).lifted fun raw => ?_
      refine Trades.lifted (Trades.still fun _ => ⟨rfl, rfl, rfl, rfl⟩) fun pending => ?_
      split
      next e => exact (managedExceptionKeeps e).lifted fun _ => .throws _ rfl
      next => exact .done rfl

theorem callBodyKeeps (guest : g.Balanced mine) (balanced : invoke.Balanced mine) :
    (callBody g invoke).Balanced mine := by
  intro m receiver args
  refine (descriptorKeeps m).lifted fun d => ?_
  have last : Keeps mine [] (do
      let _ ← lift (method m)
      let index := d.codeItem.toNat - 1
      lift (countCall index)
      g.body index invoke receiver args : Act σ RuntimeError Value).run := by
    refine (methodKeeps m).lifted fun _ => ?_
    refine Trades.lifted (Trades.still fun _ => ⟨rfl, rfl, rfl, rfl⟩) fun _ => ?_
    exact guest.body invoke balanced _ receiver args
  split
  next c _ _ => exact (initializeKeeps c).act (fun _ => last) fun _ => rfl
  next => exact last

theorem callKeeps (guest : g.Balanced mine) (depth : Nat) : (call g depth).Balanced mine := by
  -- User code at one depth is balanced because the calls it makes, one level down, are.
  induction depth with
  | zero => exact fun _ _ _ => Trades.lift (Trades.looks fun _ => trivial)
  | succ depth ih =>
    intro m receiver args
    refine (descriptorKeeps m).lifted fun d => ?_
    split
    next => exact callTrampolineKeeps guest ih m receiver args
    next => exact callBodyKeeps guest ih m receiver args

end Hooked
end Detour
