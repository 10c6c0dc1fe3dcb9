import Detour.Proofs.Hook.Answering
import Detour.Proofs.Hook.Session
import Detour.Proofs.HookState

/-! A call of a hooked method, up to its handler and from the handler's answer on. In between stands the
handler alone, with the arguments as the frame carried them. -/
namespace Detour

open World

variable {σ : Type} {T : Fault → Prop} {w x : World σ}

/-! ## The hook of a method -/

theorem Shorty.paramsProper {cs : List Char} {tags : List Tag} (read : params? cs = some tags) :
    ∀ t ∈ tags, t ≠ .void := by
  induction cs generalizing tags with
  | nil =>
    cases read
    simp
  | cons c cs ih =>
    simp only [params?, Option.bind_eq_bind, Option.bind_eq_some_iff, Option.some.injEq] at read
    obtain ⟨t, head, ts, rest, rfl⟩ := read
    intro u mem
    rcases List.mem_cons.mp mem with rfl | later
    · simpa using (Option.filter_eq_some_iff.mp head).2
    · exact ih rest u later

theorem Descriptor.shortyProper {d : Descriptor} {s : Shorty} (known : d.shorty = .ok s) :
    ∀ t ∈ s.params, t ≠ .void := by
  unfold shorty at known
  split at known
  next => contradiction
  next text _ =>
    split at known
    next => contradiction
    next parsed read =>
      cases known
      unfold Shorty.parse? at read
      cases chars : text.toList with
      | nil => simp [chars, Shorty.ofChars?] at read
      | cons c cs =>
        simp only [chars, Shorty.ofChars?, Option.bind_eq_bind, Option.bind_eq_some_iff,
          Option.some.injEq] at read
        obtain ⟨result, _, params, rest, rfl⟩ := read
        exact Shorty.paramsProper rest

theorem Descriptor.patchedShorty (d : Descriptor) (style : PatchStyle) (id : Nat) :
    (d.patched style id).shorty = d.shorty := by
  cases style <;> rfl

theorem Descriptor.patchedStatic (d : Descriptor) (style : PatchStyle) (id : Nat) :
    (d.patched style id).isStatic = d.isStatic := by
  cases style with
  | compiledEntry =>
    have bit : ~~~nativeFlag &&& staticFlag = staticFlag := by decide
    simp [patched, PatchStyle.apply, isStatic, UInt32.and_assoc, bit]
  | nativeBridge =>
    have bit : nativeFlag &&& staticFlag = 0 := by decide
    have same : (d.accessFlags ||| nativeFlag) &&& staticFlag = d.accessFlags &&& staticFlag := by
      rw [← UInt32.toBitVec_inj] at bit ⊢
      simp only [UInt32.toBitVec_and, UInt32.toBitVec_or, BitVec.and_or_distrib_right] at bit ⊢
      rw [bit]
      simp
    simp [patched, PatchStyle.apply, isStatic, same]

/-! A hook leaves what calls are checked by as it was. -/

namespace Hooked

variable {index id : Nat} {d : Descriptor} {r : InstalledHook}

theorem shorty (hooked : Hooked w index d id r) : d.shorty = r.snapshot.descriptor.shorty := by
  rw [hooked.live, Descriptor.patchedShorty]

theorem isStatic (hooked : Hooked w index d id r) : d.isStatic = r.snapshot.descriptor.isStatic := by
  rw [hooked.live, Descriptor.patchedStatic]

theorem declared (hooked : Hooked w index d id r) :
    d.declaringClass = r.snapshot.descriptor.declaringClass := by
  rw [hooked.live]
  cases r.interceptor.settings.patchStyle <;> rfl

theorem coded (hooked : Hooked w index d id r) : d.codeItem = r.snapshot.descriptor.codeItem := by
  rw [hooked.live]
  cases r.interceptor.settings.patchStyle <;> rfl

theorem plain (hooked : Hooked w index d id r) : r.snapshot.descriptor.isHooked = false := by
  simp [Descriptor.isHooked, hooked.entry]

end Hooked

structure Active (w : World σ) (index : Nat) (d : Descriptor) (id : Nat) (r : InstalledHook) : Prop where
  found : w.descriptor? (.live index) = some d
  hooked : Hooked w index d id r
  made : r.Made w.vm.classes
  arch : r.interceptor.arch = w.vm.arch

namespace Active

variable {index id : Nat} {d : Descriptor} {r : InstalledHook}

theorem shorty (active : Active w index d id r) : d.shorty = .ok r.shorty :=
  active.hooked.shorty.trans active.made.shorty

theorem isStatic (active : Active w index d id r) : d.isStatic = r.isStatic :=
  active.hooked.isStatic.trans active.made.isStatic.symm

theorem recorded (active : Active w index d id r) : w.recordOf (.live index) = some id := by
  simp [recordOf, active.found, active.hooked.recorded]

theorem slots (active : Active w index d id r) :
    r.slots = Detour.slots w.vm.arch.abi r.shorty r.isStatic := by
  rw [active.made.slots, active.arch]

theorem slotCount (active : Active w index d id r) (dynamic : r.isStatic = false) :
    r.slots.length = r.shorty.params.length + 1 := by
  rw [active.slots, ← List.length_map Slot.tag, slotsTags, argumentTags, dynamic]
  rfl

theorem params (active : Active w index d id r) :
    (r.slots.drop (if r.isStatic then 0 else 1)).isEmpty = r.shorty.params.isEmpty := by
  have tags : (r.slots.drop (if r.isStatic then 0 else 1)).map Slot.tag = r.shorty.params := by
    rw [List.map_drop, active.slots, slotsTags]
    unfold argumentTags
    cases r.isStatic <;> rfl
  rw [← tags, List.isEmpty_map]

end Active

/-! ## Arguments -/

inductive Heap.Passes (h : Heap) : Value → Passed → Prop
  | object {r x} (denotes : h.Denotes r x) : Passes h (.reference r) (.object x)
  | primitive {v} (kind : v.tag.isPrimitive = true) : Passes h v (.primitive v)

def Same (before after : Heap) (r s : Option Ref) : Prop := ∃ x, before.Denotes r x ∧ after.Denotes s x

theorem Same.some {before after : Heap} {r : Ref} {s : Option Ref} (same : Same before after (.some r) s) :
    ∃ t, s = .some t := by
  obtain ⟨x, old, now⟩ := same
  obtain ⟨k, rfl, _⟩ := Heap.denotesSome.mp old
  cases s with
  | none => simp at now
  | some t => exact ⟨t, rfl⟩

inductive Boxes (before after : Heap) : Value → Option Ref → Prop
  | object {r s x} (old : before.Denotes r x) (now : after.Denotes s x) : Boxes before after (.reference r) s
  | primitive {v s} (kind : v.tag.isPrimitive = true) (at_ : after.get? s = some (.boxed v)) :
    Boxes before after v (some s)

theorem Heap.Passes.boxes {before after : Heap} {v : Value} {a : Passed} {y : Option Nat} {s : Option Ref}
    (passes : before.Passes v a) (wraps : after.Wraps a y) (denotes : after.Denotes s y) :
    Boxes before after v s := by
  cases passes with
  | object old =>
    cases wraps with
    | object => exact .object old denotes
  | primitive kind =>
    cases wraps with
    | primitive shows_ =>
      cases s with
      | none => simp at denotes
      | some s => exact .primitive kind ((denotesGet denotes).trans (showsPlain shows_))

theorem boxesAll {before after : Heap} {values : List Value} {xs : List Passed} {ys : List (Option Nat)}
    {es : List (Option Ref)} (pass : List.Forall₂ before.Passes values xs)
    (wrap : List.Forall₂ after.Wraps xs ys) (denote : List.Forall₂ after.Denotes es ys) :
    List.Forall₂ (Boxes before after) values es := by
  induction pass generalizing ys es with
  | nil =>
    cases wrap
    cases denote
    exact .nil
  | cons head _ ih =>
    cases wrap with
    | cons wraps wrap =>
      cases denote with
      | cons denotes denote => exact .cons (head.boxes wraps denotes) (ih wrap denote)

theorem arriveAll {frame : Frame} {h : Heap} {places : List Slot} {values : List Value} {xs : List Passed}
    (pass : List.Forall₂ h.Passes values xs)
    (reads : List.Forall₂ (fun s v => frame.valueAt s = .ok v ∧ v.tag = s.tag) places values) :
    List.Forall₂ (Arrives frame h) places xs := by
  induction pass generalizing places with
  | nil =>
    cases reads
    exact .nil
  | cons passes _ ih =>
    cases reads with
    | cons read rest =>
      refine .cons ?_ (ih rest)
      cases passes with
      | object denotes => exact .object read.2.symm (Frame.referenceRead read.1) denotes
      | primitive kind => exact .primitive kind read.2 read.1

structure Proper (w : World σ) (r : InstalledHook) (receiver : Option Ref) (args : List Value) : Prop where
  kinds : args.map Value.tag = r.shorty.params
  receiver : r.isStatic = false → ∃ x, w.vm.heap.Denotes receiver x
  live : ∀ s, .reference s ∈ args → ∃ x, w.vm.heap.Denotes s x

def InstalledHook.values (r : InstalledHook) (receiver : Option Ref) (args : List Value) : List Value :=
  if r.isStatic then args else .reference receiver :: args

namespace Proper

variable {r : InstalledHook} {receiver : Option Ref} {args : List Value}

theorem tags (proper : Proper w r receiver args) :
    (r.values receiver args).map Value.tag = argumentTags r.shorty r.isStatic := by
  unfold InstalledHook.values argumentTags
  cases r.isStatic <;> simp [proper.kinds, Value.tag]

theorem argsPass (proper : Proper w r receiver args) (kinds : ∀ t ∈ r.shorty.params, t ≠ .void) :
    ∃ xs, List.Forall₂ w.vm.heap.Passes args xs := by
  have each : ∀ v ∈ args, ∃ a, w.vm.heap.Passes v a := by
    intro v mem
    have kind := kinds v.tag (proper.kinds ▸ List.mem_map_of_mem mem)
    cases v with
    | reference s =>
      obtain ⟨x, denotes⟩ := proper.live s mem
      exact ⟨_, .object denotes⟩
    | void => exact (kind rfl).elim
    | _ => exact ⟨_, .primitive rfl⟩
  clear proper kinds
  induction args with
  | nil => exact ⟨[], .nil⟩
  | cons v args ih =>
    obtain ⟨a, passes⟩ := each v (by simp)
    obtain ⟨xs, rest⟩ := ih fun v mem => each v (by simp [mem])
    exact ⟨a :: xs, .cons passes rest⟩

end Proper

inductive Passing (w : World σ) (r : InstalledHook) (receiver : Option Ref) (args : List Value) :
    Option Nat → List Passed → List Passed → Prop
  | static {xs} (static : r.isStatic = true) (pass : List.Forall₂ w.vm.heap.Passes args xs) :
    Passing w r receiver args none xs xs
  | dynamic {y xs} (dynamic : r.isStatic = false) (denotes : w.vm.heap.Denotes receiver y)
    (pass : List.Forall₂ w.vm.heap.Passes args xs) :
    Passing w r receiver args y xs (.object y :: xs)

namespace Passing

variable {r : InstalledHook} {receiver : Option Ref} {args : List Value} {y : Option Nat}
  {xs all : List Passed}

theorem ofProper (proper : Proper w r receiver args) (kinds : ∀ t ∈ r.shorty.params, t ≠ .void) :
    ∃ y xs all, Passing w r receiver args y xs all := by
  obtain ⟨xs, pass⟩ := proper.argsPass kinds
  cases static : r.isStatic with
  | true => exact ⟨none, xs, xs, .static static pass⟩
  | false =>
    obtain ⟨y, denotes⟩ := proper.receiver static
    exact ⟨y, xs, .object y :: xs, .dynamic static denotes pass⟩

theorem values (passing : Passing w r receiver args y xs all) :
    List.Forall₂ w.vm.heap.Passes (r.values receiver args) all := by
  unfold InstalledHook.values
  cases passing with
  | static static pass => simpa [static] using pass
  | dynamic dynamic denotes pass => simpa [dynamic] using ⟨.object denotes, pass⟩

theorem passed (passing : Passing w r receiver args y xs all) : List.Forall₂ w.vm.heap.Passes args xs := by
  cases passing with
  | static _ pass => exact pass
  | dynamic _ _ pass => exact pass

theorem params (passing : Passing w r receiver args y xs all) :
    all.drop (if r.isStatic then 0 else 1) = xs := by
  cases passing with
  | static static => simp [static]
  | dynamic dynamic => simp [dynamic]

theorem head (passing : Passing w r receiver args y xs all) :
    r.isStatic = false → all = .object y :: xs := by
  cases passing with
  | static static => simp [static]
  | dynamic => exact fun _ => rfl

theorem receives (passing : Passing w r receiver args y xs all) :
    r.isStatic = false → w.vm.heap.Denotes receiver y := by
  cases passing with
  | static static => simp [static]
  | dynamic _ denotes => exact fun _ => denotes

theorem absent (passing : Passing w r receiver args y xs all) : r.isStatic = true → y = none := by
  cases passing with
  | static => exact fun _ => rfl
  | dynamic dynamic => simp [dynamic]

end Passing

theorem steadyStart {mine : σ → Handle → Prop} (arch : Architecture) (layout : Layout) {user : σ}
    (nothing : ∀ h, ¬ mine user h) : Steady (.owning mine) (World.start (Vm.start arch layout) user) :=
  ⟨⟨rfl, fun _ still => still.elim, fun _ ⟨_, none_, _⟩ => nomatch none_⟩, trivial, rfl,
    fun h own => (nothing h own).elim⟩

theorem Reachable.active {mine : σ → Handle → Prop} {arch : Architecture} {layout : Layout} {user : σ}
    {index id : Nat} {r : InstalledHook} (nothing : ∀ h, ¬ mine user h)
    (reachable : Reachable (.owning mine) (World.start (Vm.start arch layout) user) w)
    (recorded : w.recordOf (.live index) = some id) (found : w.records[id]? = some r)
    (configured : r.interceptor.arch = arch) :
    Steady (.owning mine) w ∧ Sound w ∧ ∃ d, Active w index d id r := by
  have start := steadyStart arch layout nothing
  have toCall := reachable.leads start.ready
  obtain ⟨sound, _, _⟩ := toCall.straight (soundStart arch layout user)
  obtain ⟨d, r', there, hooked⟩ := sound.recorded recorded
  cases hooked.found.symm.trans found
  refine ⟨start.leads toCall, sound, d, ?_⟩
  exact {
    found := there
    hooked
    made := sound.made r (List.mem_of_getElem? found)
    arch := by
      rw [configured, toCall.arch]
      rfl }

/-! ## The run -/

def deliver (declared : Tag) (raw : UInt64) : Machine σ (Except RuntimeError Value) := do
  match ← takePending with
  | some e => return .error (← managedException e)
  | none => return .ok (Value.ofRaw declared raw)

def handOver (declared : Tag) : Except CallError Value → Machine σ (Except RuntimeError Value)
  | .ok v => deliver declared v.toRaw
  | .error e => do
    raise e
    deliver declared 0

def finishCall (r : InstalledHook) (frame : Frame) (boxed : BoxedFrame)
    (result : Except CallError (Option Ref)) : Machine σ (Except RuntimeError Value) := do
  let (outcome, _) ← finishFrame r frame boxed result
  handOver r.shorty.result outcome

theorem handOverOk (declared : Tag) (v : Value) (clear : w.pending = none) :
    handOver declared (.ok v) w = .ok (.ok (Value.ofRaw declared v.toRaw), w) := by
  have same : { w with pending := none } = w := by
    cases w
    simp only at clear
    rw [clear]
  have taken : takePending w = .ok (none, w) := by
    change Except.ok (w.pending, { w with pending := none }) = _
    rw [clear, same]
  change deliver declared v.toRaw w = _
  unfold deliver
  rw [Step.bindRun taken]
  rfl

theorem handOverError (declared : Tag) (e : CallError) :
    handOver declared (.error e) w = (managedException e >>= fun m =>
      (pure (.error m) : Machine σ (Except RuntimeError Value)))
        { w with raised := w.raised ++ [e], pending := none } := rfl

theorem enterHookRun {g : Guest σ} {invoke : Invoker σ} {m : MethodAddress} {id : Nat} {r : InstalledHook}
    {frame : Frame} (recorded : w.recordOf m = some id) (found : w.records[id]? = some r)
    (abi : frame.abi = r.interceptor.arch.abi) :
    enterHook g invoke (some m) frame.bytes w = (do
      let (outcome, frame) ← answerFrame g invoke id frame
      return (some outcome, frame.bytes)) w := by
  unfold enterHook
  rw [Step.getBindRun]
  simp only [Option.bind_some, recorded]
  rw [Step.bindRun (recordRun found), ← abi]

def rawOutcome : Except CallError Value → Machine σ UInt64
  | .ok v => return v.toRaw
  | .error e => do
    raise e
    return 0

theorem trampolineParts {g : Guest σ} {invoke : Invoker σ} {m : MethodAddress} {id : Nat} {r : InstalledHook}
    {frame : Frame} (recorded : w.recordOf m = some id) (found : w.records[id]? = some r)
    (abi : frame.abi = r.interceptor.arch.abi) :
    trampoline g invoke m frame.bytes w = (do
      let (outcome, _) ← answerFrame g invoke id frame
      rawOutcome outcome) w := by
  unfold trampoline
  rw [Step.bindSame (enterHookRun recorded found abi), bind_assoc]
  refine congrFun (bind_congr fun (outcome, _) => ?_) w
  cases outcome <;> rfl

theorem trampolineRun {g : Guest σ} {invoke : Invoker σ} {m : MethodAddress} {id : Nat} {r : InstalledHook}
    {frame : Frame} (recorded : w.recordOf m = some id) (found : w.records[id]? = some r)
    (abi : frame.abi = r.interceptor.arch.abi) (declared : Tag) :
    (trampoline g invoke m frame.bytes >>= deliver declared) w = (do
      let (outcome, _) ← answerFrame g invoke id frame
      handOver declared outcome) w := by
  rw [Step.bindSame (trampolineParts recorded found abi), bind_assoc]
  refine congrFun (bind_congr fun (outcome, _) => ?_) w
  cases outcome <;> rfl

section Calls

variable {g : Guest σ} {invoke : Invoker σ} {depth index id : Nat} {d : Descriptor} {r : InstalledHook}
  {receiver : Option Ref} {args : List Value} {frame : Frame}

structure Framed (w : World σ) (m : MethodAddress) (receiver : Option Ref) (args : List Value)
    (d : Descriptor) (shorty : Shorty) (frame : Frame) : Prop where
  found : w.descriptor? m = some d
  read : d.shorty = .ok shorty
  count : args.length = shorty.params.length
  stored : (Frame.filled w.vm.arch.abi
      (Frame.sizeFor w.vm.arch.abi (slots w.vm.arch.abi shorty d.isStatic) + 8) 0).storeValues
    (slots w.vm.arch.abi shorty d.isStatic) (if d.isStatic then args else .reference receiver :: args) =
      .ok frame

theorem Framed.run {m : MethodAddress} {shorty : Shorty} (framed : Framed w m receiver args d shorty frame) :
    (callTrampoline g invoke m receiver args).run w =
      (trampoline g invoke m frame.bytes >>= deliver shorty.result) w := by
  unfold callTrampoline
  rw [Action.liftBindRun (descriptorRun framed.found), framed.read]
  dsimp only
  rw [if_neg (by simpa using framed.count)]
  rw [Action.getBindRun, Action.liftBindRun (Step.exceptRun framed.stored), Action.runLift]
  refine congrFun (bind_congr fun raw => ?_) w
  rw [Action.runLift]
  refine bind_congr fun pending => ?_
  cases pending with
  | none => rfl
  | some e =>
    rw [Action.runLift]
    rfl

theorem callTrampolineRun (active : Active w index d id r) (count : args.length = r.shorty.params.length)
    (stored : (Frame.filled w.vm.arch.abi (Frame.sizeFor w.vm.arch.abi r.slots + 8) 0).storeValues
      r.slots (r.values receiver args) = .ok frame) (abi : frame.abi = w.vm.arch.abi) :
    (callTrampoline g invoke (.live index) receiver args).run w = (do
      let (outcome, _) ← answerFrame g invoke id frame
      handOver r.shorty.result outcome) w := by
  have framed : Framed w (.live index) receiver args d r.shorty frame := {
    found := active.found
    read := active.shorty
    count
    stored := by
      rw [active.isStatic, ← active.slots]
      exact stored }
  rw [framed.run, trampolineRun active.recorded active.hooked.found (active.arch ▸ abi)]

theorem callParts {m : MethodAddress} :
    (call g (depth + 1) m receiver args).run w =
      (if w.isHooked m then callTrampoline g (call g depth) m receiver args
        else callBody g (call g depth) m receiver args).run w := by
  change (lift (descriptor m) >>= _ : Act σ RuntimeError Value).run w = _
  cases found : w.descriptor? m with
  | none =>
    have missing : (descriptor m : Machine σ Descriptor) w = .error .unknownMethod := by
      change (Step.require .unknownMethod (w.descriptor? m)) w = _
      rw [found]
      rfl
    rw [Action.runLift, Step.bindFault missing]
    simp only [isHooked, found, Option.any_none, Bool.false_eq_true, if_false]
    unfold callBody
    rw [Action.runLift, Step.bindFault missing]
  | some d =>
    rw [Action.liftBindRun (descriptorRun found)]
    simp only [isHooked, found, Option.any_some]

theorem callHooked (active : Active w index d id r) :
    (call g (depth + 1) (.live index) receiver args).run w =
      (callTrampoline g (call g depth) (.live index) receiver args).run w := by
  rw [callParts, if_pos (by simp [isHooked, active.found, active.hooked.isHooked])]

structure Entered (g : Guest σ) (depth index id : Nat) (r : InstalledHook) (receiver : Option Ref)
    (args : List Value) (w : World σ) (all : List Passed) (boxed : BoxedFrame) (frame : Frame)
    (u : World σ) : Prop where
  run : (call g (depth + 1) (.live index) receiver args).run w = (do
    let result ← (r.interceptor.handler.answer g (call g depth) ⟨id, boxed⟩).attempt
    finishCall r frame boxed result) u
  keeps : boxed.Keeps r.isStatic w.vm.heap.objects.size all u
  array : boxed.array = none ↔ (r.shorty.params.isEmpty && !r.interceptor.settings.emptyArgsArray) = true
  quiet : w.disturbed = [] → u.disturbed = []
  classes : u.vm.classes = w.vm.classes
  tidy : Tidy w u
  fresh : ∀ h ∈ boxed.handles, Fresh w h u
  abi : frame.abi = w.vm.arch.abi
  room : Frame.sizeFor w.vm.arch.abi r.slots ≤ frame.bytes.size
  spends : w.vm.heap.Spends (r.slots.length + 1) u.vm.heap

theorem Entered.foreign {p : Rights σ} {all : List Passed} {boxed : BoxedFrame} {u : World σ}
    (entered : Entered g depth index id r receiver args w all boxed frame u)
    (owned : ∀ h, p.mine w.user h → h.id < w.vm.handles.next) : ∀ h ∈ boxed.handles, ¬ p.mine u.user h :=
  fun h mem => (entered.fresh h mem).foreign owned entered.tidy

theorem finishRefused (declared : Tag) (e : CallError) :
    RanOut w 1 (handOver declared (.error e) w) ∨ ∃ m z, handOver declared (.error e) w = .ok (.error m, z) := by
  rw [handOverError]
  have raised := (Costs.managedException e).runsOut (w := { w with raised := w.raised ++ [e], pending := none })
    (managedExceptionCalm (T := (· = .referencesExhausted)) rfl e _)
  rcases raised with ran | ⟨m, z, made, _⟩
  · exact .inl ⟨ran.short, Step.bindFault ran.run⟩
  · exact .inr ⟨m, z, Step.bindRun made⟩

/-- A hooked call comes to its handler, unless references run out or a service was made to fail. What it makes
on the way are the array, an object for each slot at most, and the error that a failing service comes to. -/
theorem callEntered {y : Option Nat} {xs all : List Passed} (active : Active w index d id r)
    (proper : Proper w r receiver args) (passing : Passing w r receiver args y xs all)
    (faithful : w.lost = none) :
    RanOut w (r.slots.length + 2) ((call g (depth + 1) (.live index) receiver args).run w) ∨
      (w.disturbed ≠ [] ∧ ∃ e z, (call g (depth + 1) (.live index) receiver args).run w = .ok (.error e, z)) ∨
      ∃ boxed frame u, Entered g depth index id r receiver args w all boxed frame u := by
  obtain ⟨frame, stored, loaded⟩ := @Frame.callLoaded w.vm.arch _ _ _ proper.tags
  have arrive := arriveAll passing.values loaded.reads
  have room := loaded.room
  rw [← active.slots] at stored arrive room
  have count : args.length = r.shorty.params.length := by rw [← proper.kinds, List.length_map]
  have run : (call g (depth + 1) (.live index) receiver args).run w = _ :=
    (callHooked active).trans (callTrampolineRun active count stored loaded.abi)
  rcases answerOpened g (call g depth) arrive (fun dynamic => ⟨y, xs, passing.head dynamic⟩) faithful
    active.hooked.found with
    ran | ⟨e, u, declined⟩ | ⟨boxed, u, opened⟩
  · exact Or.inl ((ran.first run).more (Nat.le_succ _))
  · have run := run.trans (Step.bindRun declined.run)
    rcases finishRefused (w := u) r.shorty.result (.runtime e) with ran | ⟨m, z, handed⟩
    · exact Or.inl (ran.earlier declined.spends fun f failed => run.trans failed)
    · exact Or.inr (Or.inl ⟨declined.disturbed, m, z, run.trans handed⟩)
  · refine Or.inr (Or.inr ⟨boxed, frame, u, ?_⟩)
    exact {
      run := by
        rw [run, Step.bindSame opened.run, bind_assoc]
        rfl
      keeps := opened.keeps
      array := active.params ▸ opened.array
      quiet := opened.quiet
      classes := opened.classes
      tidy := opened.tidy
      fresh := opened.fresh
      abi := loaded.abi
      room
      spends := opened.spends }

theorem methodIff {m : MethodAddress} {info : Method} :
    method m w = .ok (info, w) ↔
      ∃ d, w.descriptor? m = some d ∧ w.vm.methods[d.codeItem.toNat - 1]? = some info := by
  constructor
  · intro run
    have ends : Step.Ends (fun _ => True) (method m) w fun info _ =>
        ∃ d, w.descriptor? m = some d ∧ w.vm.methods[d.codeItem.toNat - 1]? = some info := by
      refine Step.endsBind.mpr ((descriptorEnds fun _ => trivial).weaken fun d x ⟨same, found⟩ => ?_)
      subst same
      refine vmStepEnds.mpr ?_
      simp only [Vm.method, Step.endsBind, Step.endsGet, Step.endsRequire, implies_true, and_true]
      exact fun info there => ⟨d, found, there⟩
    exact ends.result run
  · rintro ⟨d, found, there⟩
    have looked : Vm.method d.codeItem w.vm = .ok (info, w.vm) := Step.requireRun there
    unfold method
    rw [Step.bindRun (descriptorRun found), vmStepRun looked]

theorem methodRun {index : Nat} {d : Descriptor} (sound : Sound w)
    (found : w.descriptor? (.live index) = some d) :
    ∃ info, w.vm.methods[d.codeItem.toNat - 1]? = some info ∧ method (.live index) w = .ok (info, w) := by
  obtain ⟨_, there, _⟩ := Option.map_eq_some_iff.mp found
  have below := (List.getElem?_eq_some_iff.mp there).1
  have numbered := sound.numbered index d found
  have inside : d.codeItem.toNat - 1 < w.vm.methods.length := by omega
  have at_ := List.getElem?_eq_getElem inside
  exact ⟨_, at_, methodIff.mpr ⟨d, found, at_⟩⟩

theorem Active.known {p q : Rights σ} {u : World σ} (active : Active w index d id r) (ready : Ready p w)
    (sound : Sound w) (tidy : Tidy w u) (leads : Leads q u.vm.handles.next u x) :
    ∃ info, method (.live index) x = .ok (info, x) := by
  have first := ((Within.start ready).tidy tidy).leads
  obtain ⟨soundHere, evolved, _⟩ := first.straight sound
  obtain ⟨soundThen, more, _⟩ := leads.straight soundHere
  have found := (evolved.trans more).hooked index d active.found active.hooked.isHooked
  obtain ⟨info, _, known⟩ := methodRun soundThen found
  exact ⟨info, known⟩

theorem Entered.known {p q : Rights σ} {all : List Passed} {boxed : BoxedFrame} {u : World σ}
    (entered : Entered g depth index id r receiver args w all boxed frame u) (active : Active w index d id r)
    (ready : Ready p w) (sound : Sound w) (leads : Leads q u.vm.handles.next u x) :
    ∃ info, method (.live index) x = .ok (info, x) :=
  active.known ready sound entered.tidy leads

theorem Entered.finishes {p : Rights σ} {all : List Passed} {boxed : BoxedFrame} {u : World σ}
    {result : Except CallError (Option Ref)} {converted : Except CallError Value}
    (entered : Entered g depth index id r receiver args w all boxed frame u) (active : Active w index d id r)
    (leads : Leads p u.vm.handles.next u x) (foreign : ∀ h ∈ boxed.handles, ¬ p.mine u.user h)
    (faithful : x.lost = none)
    (run : (r.interceptor.handler.answer g (call g depth) ⟨id, boxed⟩).run u = .ok (result, x))
    (converts : convertOutcome r result x = .ok (converted, x)) :
    ∃ z, (call g (depth + 1) (.live index) receiver args).run w = handOver r.shorty.result converted z ∧
      Served (· ∈ boxed.handles) (fun _ => True) x z ∧ Handled x z := by
  obtain ⟨pins, live⟩ := entered.keeps.held leads foreign
  obtain ⟨after, written, _⟩ := entered.keeps.writes pins faithful entered.abi active.slots entered.room
  obtain ⟨z, finished, served, handled⟩ := entered.keeps.finishes live written converts
  exact ⟨z, entered.run.trans ((Step.bindRun run).trans (Step.bindRun finished)), served, handled⟩

theorem Entered.finished {p : Rights σ} {all : List Passed} {boxed : BoxedFrame} {u : World σ}
    {result : Except CallError (Option Ref)} {converted : Except CallError Value}
    (entered : Entered g depth index id r receiver args w all boxed frame u) (active : Active w index d id r)
    (leads : Leads p u.vm.handles.next u x) (foreign : ∀ h ∈ boxed.handles, ¬ p.mine u.user h)
    (faithful : x.lost = none)
    (run : (r.interceptor.handler.answer g (call g depth) ⟨id, boxed⟩).run u = .ok (result, x))
    (converts : convertOutcome r result x = .ok (converted, x)) :
    ∃ z, (call g (depth + 1) (.live index) receiver args).run w = handOver r.shorty.result converted z ∧
      Served (· ∈ boxed.handles) (fun _ => True) x z ∧ z.vm.heap = x.vm.heap := by
  obtain ⟨z, ended, served, handled⟩ := entered.finishes active leads foreign faithful run converts
  exact ⟨z, ended, served, handled.heap⟩

end Calls
end Detour
