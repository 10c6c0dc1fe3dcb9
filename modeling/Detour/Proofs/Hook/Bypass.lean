import Detour.Proofs.Hook.Converting

/-! Calls past a hook. The copy in the snapshot stands in for the method: the receiver and the arguments
are looked at and unwrapped, and the body is entered as a call without a hook enters it. Its answer is
wrapped for the handler, and unwrapped again for the caller. -/
namespace Detour

open World

variable {σ : Type} {T : Fault → Prop} {w x : World σ}

inductive Carried (before after : Heap) : Value → Value → Prop
  | reference {r s} (same : Same before after r s) : Carried before after (.reference r) (.reference s)
  | plain {v} (kind : v.tag ≠ .reference) : Carried before after v v

theorem checkReceiverRun {m : MethodAddress} {d : Descriptor} {receiver : Option Ref}
    (found : x.descriptor? m = some d)
    (fits : d.isStatic = false → ∃ s, receiver = some s ∧ ∀ c, d.declaringClass = some c → x.IsA s c) :
    (checkReceiver m receiver).run x = .ok (.ok (if d.isStatic then none else receiver), x) := by
  unfold checkReceiver
  rw [Action.liftBindRun (descriptorRun found)]
  cases static : d.isStatic with
  | true => rfl
  | false =>
    obtain ⟨s, rfl, is⟩ := fits static
    cases declared : d.declaringClass with
    | none => rfl
    | some c =>
      simp only [Bool.false_eq_true, if_false]
      rw [Action.liftBindRun (isInstanceIff.mpr (is c declared))]
      rfl

section Arguments

variable {m : MethodAddress} {info : Method} {before : Heap} {index : Nat}

theorem boxConverts {v : Value} {e : Option Ref} (boxes : Boxes before x.vm.heap v e)
    (fits : ∀ s t c, v = .reference (some s) → (info.paramClasses[index]?).join = some c →
      Same before x.vm.heap (some s) (some t) → x.IsA t c) :
    ∃ value, Converts x info index v.tag e value ∧ Carried before x.vm.heap v value := by
  cases boxes with
  | @object r _ k old now =>
    refine ⟨.reference e, .reference fun t c is declared => ?_, .reference ⟨k, old, now⟩⟩
    subst is
    cases r with
    | none => simp [Heap.denotesNull.mp old] at now
    | some s => exact fits s t c rfl declared ⟨k, old, now⟩
  | @primitive _ t kind at_ =>
    have other := Tag.primitiveOther kind
    exact ⟨v, .primitive other at_ (Value.widenSame kind), .plain other⟩

theorem boxesConvert {args : List Value} {es : List (Option Ref)}
    (boxes : List.Forall₂ (Boxes before x.vm.heap) args es)
    (fits : ∀ j s t c, args[j]? = some (.reference (some s)) → (info.paramClasses[index + j]?).join = some c →
      Same before x.vm.heap (some s) (some t) → x.IsA t c) :
    ∃ values, ConvertsEach x info index (args.map Value.tag) es values ∧
      List.Forall₂ (Carried before x.vm.heap) args values := by
  induction boxes generalizing index with
  | nil => exact ⟨[], .nil, .nil⟩
  | @cons v e args es head _ ih =>
    have here : ∀ s t c, v = .reference (some s) → (info.paramClasses[index]?).join = some c →
        Same before x.vm.heap (some s) (some t) → x.IsA t c :=
      fun s t c is => fits 0 s t c (congrArg some is)
    have later : ∀ j s t c, args[j]? = some (.reference (some s)) →
        (info.paramClasses[index + 1 + j]?).join = some c →
        Same before x.vm.heap (some s) (some t) → x.IsA t c := by
      intro j s t c found declared
      exact fits (j + 1) s t c found (by rwa [show index + (j + 1) = index + 1 + j by omega])
    obtain ⟨value, converts, carried⟩ := boxConverts head here
    obtain ⟨values, each, all⟩ := ih later
    exact ⟨value :: values, .cons converts each, .cons carried all⟩

theorem convertArgumentsRun {args : List Value} {es : List (Option Ref)} {shorty : Shorty}
    (known : method m x = .ok (info, x)) (kinds : args.map Value.tag = shorty.params)
    (boxes : List.Forall₂ (Boxes before x.vm.heap) args es)
    (fits : ∀ (j : Nat) s t c, args[j]? = some (.reference (some s)) → (info.paramClasses[j]?).join = some c →
      Same before x.vm.heap (some s) (some t) → x.IsA t c) :
    ∃ values, (Boxing.convertArguments m shorty es).run x = .ok (.ok values, x) ∧
      List.Forall₂ (Carried before x.vm.heap) args values := by
  obtain ⟨values, each, carried⟩ := boxesConvert boxes fun j s t c found declared =>
    fits j s t c found (by rwa [Nat.zero_add] at declared)
  exact ⟨values, argumentsConvert known (kinds ▸ each), carried⟩

end Arguments

theorem initClassRun {c : ClassId} (done : x.vm.classes.isInitialized c = true) :
    (vmAction (Vm.initClass c) : Act σ RuntimeError Unit).run x = .ok (.ok (), x) := by
  have nothing : Action.Ends (fun _ => False) (Vm.initClass c) x.vm fun r vm => r = .ok () ∧ vm = x.vm := by
    unfold Vm.initClass Vm.classInfo
    rw [Action.endsLiftedBind]
    simp only [Step.endsBind, Step.endsGet, Step.endsRequire]
    refine ⟨fun info found => ?_, fun none_ => ?_⟩
    · have initialized : info.initialized = true := by
        simpa [ClassTable.isInitialized, found] using done
      rw [initialized]
      exact ⟨rfl, rfl⟩
    · simp [ClassTable.isInitialized, none_] at done
  have ends : Action.Ends (fun _ => False) (vmAction (Vm.initClass c) : Act σ RuntimeError Unit) x
      fun r y => r = .ok () ∧ y = x :=
    vmActionEnds.mpr (nothing.weaken fun _ _ ends => ⟨ends.1, by rw [ends.2]⟩)
  obtain ⟨_, _, run, rfl, rfl⟩ := Step.Ends.sure ends
  exact run

section Calls

variable {g : Guest σ} {depth index id : Nat} {d : Descriptor} {r : InstalledHook} {info : Method}
  {m : MethodAddress} {receiver : Option Ref} {args : List Value}

theorem callPlainRun (found : x.descriptor? m = some d) (plain : d.isHooked = false)
    (known : method m x = .ok (info, x))
    (done : ∀ c, d.isStatic = true → d.declaringClass = some c → x.vm.classes.isInitialized c = true) :
    (call g (depth + 1) m receiver args).run x =
      (g.body (d.codeItem.toNat - 1) (call g depth) receiver args).run (x.counted (d.codeItem.toNat - 1)) := by
  have counts : countCall (d.codeItem.toNat - 1) x = .ok ((), x.counted (d.codeItem.toNat - 1)) := rfl
  have body : (do
      let _ ← lift (method m)
      lift (countCall (d.codeItem.toNat - 1))
      g.body (d.codeItem.toNat - 1) (call g depth) receiver args : Act σ RuntimeError Value).run x =
        (g.body (d.codeItem.toNat - 1) (call g depth) receiver args).run (x.counted (d.codeItem.toNat - 1)) := by
    rw [Action.liftBindRun known, Action.liftBindRun counts]
  change (lift (descriptor m) >>= _ : Act σ RuntimeError Value).run x = _
  rw [Action.liftBindRun (descriptorRun found), if_neg (by simp [plain])]
  unfold callBody
  rw [Action.liftBindRun (descriptorRun found)]
  cases static : d.isStatic with
  | false => exact body
  | true =>
    cases declared : d.declaringClass with
    | none => exact body
    | some c =>
      dsimp only
      rw [Action.bindRun (initClassRun (done c static declared))]
      exact body

theorem Active.served {free : Handle → Prop} {still : Nat → Prop} (active : Active w index d id r)
    (served : Served free still w x) : Active x index d id r where
  found := (served.descriptor _).trans active.found
  hooked := { active.hooked with
    found := served.records ▸ active.hooked.found
    only := served.records ▸ active.hooked.only }
  made := { active.made with
    declared := by
      obtain ⟨c, declared, done⟩ := active.made.declared
      exact ⟨c, declared, fun static => served.vm.initialized c (done static)⟩ }
  arch := active.arch.trans served.arch.symm

def InstalledHook.bodyIndex (r : InstalledHook) : Nat := r.snapshot.descriptor.codeItem.toNat - 1

def wrapOutcome : Except RuntimeError Value → Machine σ (Except CallError (Option Ref))
  | .ok v => (Action.mapError .runtime (Boxing.wrapResult v)).attempt
  | .error e => pure (.error (.runtime e))

theorem wrapOutcomeCosts (outcome : Except RuntimeError Value) :
    Costs 1 (wrapOutcome outcome : Machine σ (Except CallError (Option Ref))) := by
  cases outcome with
  | ok v => exact (Boxing.wrapResultCosts v).mapError
  | error e => exact (Costs.done _).within (Nat.zero_le 1)

theorem serveRun (s : Service) (quiet : x.disturbed = []) : (serve s).run x = .ok (.ok (), x) := by
  have ends : Action.Ends (fun _ => False) (serve s) x fun r y => r = .ok () ∧ y = x :=
    (serveEnds s).weaken fun r y ⟨_, refused, same⟩ => ⟨by
      by_contra failed
      exact refused failed quiet, same quiet⟩
  obtain ⟨_, _, run, rfl, rfl⟩ := Step.Ends.sure ends
  exact run

theorem callCheckedRun {before : Heap} {es : List (Option Ref)} {shorty : Shorty} (invoke : Invoker σ)
    (target : MethodAddress) (found : x.descriptor? m = some d) (read : d.shorty = .ok shorty)
    (known : method m x = .ok (info, x)) (quiet : x.disturbed = []) (kinds : args.map Value.tag = shorty.params)
    (instance_ : d.isStatic = false → ∃ s, receiver = some s ∧ ∀ c, d.declaringClass = some c → x.IsA s c)
    (boxes : List.Forall₂ (Boxes before x.vm.heap) args es)
    (fits : ∀ (j : Nat) s t c, args[j]? = some (.reference (some s)) →
      (info.paramClasses[j]?).join = some c → Same before x.vm.heap (some s) (some t) → x.IsA t c) :
    ∃ values, List.Forall₂ (Carried before x.vm.heap) args values ∧
      (callChecked invoke m target receiver es).run x = (do
        let outcome ← (invoke target (if d.isStatic then none else receiver) values).attempt
        wrapOutcome outcome) x := by
  obtain ⟨values, converts, carried⟩ := convertArgumentsRun known kinds boxes fits
  have served : (invoke.serve target (if d.isStatic then none else receiver) values).run x =
      (invoke target (if d.isStatic then none else receiver) values).run x :=
    Action.bindRun (serveRun .invoke quiet)
  refine ⟨values, carried, ?_⟩
  unfold callChecked
  rw [Action.liftBindRun (descriptorRun found), read]
  change (pure shorty >>= _ : Act σ CallError (Option Ref)).run x = _
  rw [pure_bind, Action.bindRun (checkReceiverRun found instance_), Action.bindRun converts, Action.runMapError,
    Step.bindSame served]
  refine congrFun (bind_congr fun outcome => ?_) _
  cases outcome <;> rfl

theorem callUnhookedParts {target : MethodAddress} {es : List (Option Ref)} (invoke : Invoker σ)
    (stands : unhookedOf x m = target) :
    (callUnhooked invoke m receiver es).run x = (callChecked invoke m target receiver es).run x := by
  unfold callUnhooked
  rw [Action.getBindRun, stands]

variable (g depth) in
theorem callUnhookedRun {before : Heap} {es : List (Option Ref)} (active : Active x index d id r)
    (known : method (.live index) x = .ok (info, x)) (quiet : x.disturbed = [])
    (kinds : args.map Value.tag = r.shorty.params)
    (instance_ : r.isStatic = false → ∃ s, receiver = some s ∧
      ∀ c, r.snapshot.descriptor.declaringClass = some c → x.IsA s c)
    (boxes : List.Forall₂ (Boxes before x.vm.heap) args es)
    (fits : ∀ (j : Nat) s t c, args[j]? = some (.reference (some s)) →
      (info.paramClasses[j]?).join = some c → Same before x.vm.heap (some s) (some t) → x.IsA t c) :
    ∃ values, List.Forall₂ (Carried before x.vm.heap) args values ∧
      (callUnhooked (call g (depth + 1)) (.live index) receiver es).run x = (do
        let outcome ← (g.body r.bodyIndex (call g depth) (if r.isStatic then none else receiver) values).attempt
        wrapOutcome outcome) (x.counted r.bodyIndex) := by
  have stands : unhookedOf x (.live index) = .copy id := by simp [unhookedOf, active.recorded]
  rw [← active.isStatic, ← active.hooked.declared] at instance_
  obtain ⟨values, carried, reaches⟩ := callCheckedRun (call g (depth + 1)) (.copy id) active.found active.shorty
    known quiet kinds instance_ boxes fits
  have copied : x.descriptor? (.copy id) = some r.snapshot.descriptor := by
    simp [descriptor?, active.hooked.found]
  have copyKnown : method (.copy id) x = .ok (info, x) := by
    obtain ⟨_, found, there⟩ := methodIff.mp known
    cases active.found.symm.trans found
    exact methodIff.mpr ⟨_, copied, active.hooked.coded ▸ there⟩
  have enters : (call g (depth + 1) (.copy id) (if d.isStatic then none else receiver) values).run x =
      (g.body r.bodyIndex (call g depth) (if d.isStatic then none else receiver) values).run
        (x.counted r.bodyIndex) := by
    refine callPlainRun copied active.hooked.plain copyKnown fun c static is => ?_
    obtain ⟨c', is', done⟩ := active.made.declared
    cases is.symm.trans is'
    exact done static
  rw [← active.isStatic]
  exact ⟨values, carried, (callUnhookedParts _ stands).trans (reaches.trans (Step.bindSame enters))⟩

end Calls

def World.Returns (w : World σ) (m : MethodAddress) (obj : Option Ref) : Prop :=
  ∀ r info c, obj = some r → method m w = .ok (info, w) → info.resultClass = some c →
    isInstance r c w = .ok (true, w)

theorem convertReferenceRun {m : MethodAddress} {info : Method} {obj : Option Ref}
    (known : method m x = .ok (info, x)) (returns : x.Returns m obj) :
    (Boxing.convertResult m .reference obj).run x = .ok (.ok (.reference obj), x) := by
  exact yieldsRun known (.reference fun s c is declared => isInstanceIff.mp (returns s info c is known declared))

inductive Wrapped (w : World σ) : Value → Option Ref → World σ → Prop
  | void : Wrapped w .void none w
  | reference {s} : Wrapped w (.reference s) s w
  | primitive {v b x} (kind : v.tag.isPrimitive = true) (made : Made w (.boxed v) b x) : Wrapped w v (some b) x

theorem wrapEnds (v : Value) (quiet : w.disturbed = []) :
    Step.Ends (· = .referencesExhausted) (wrapOutcome (.ok v)) w fun outcome x =>
      ∃ obj, outcome = .ok obj ∧ Wrapped w v obj x := by
  have boxed (kind : v.tag.isPrimitive = true) :
      Step.Ends (· = .referencesExhausted)
        (Action.mapError .runtime (some <$> World.box v) : Act σ CallError (Option Ref)).attempt w
        fun outcome x => ∃ obj, outcome = .ok obj ∧ Wrapped w v obj x := by
    refine Action.endsMapError.mpr (Action.endsMap.mpr ((boxPrimitive (T := (· = .referencesExhausted)) rfl kind).weaken
      fun r x ⟨made, refused⟩ => ?_))
    cases r with
    | ok b => exact ⟨some b, rfl, .primitive kind (made b rfl)⟩
    | error e => exact ((refused e rfl).disturbed quiet).elim
  cases v with
  | void => exact ⟨none, rfl, .void⟩
  | reference s => exact ⟨s, rfl, .reference⟩
  | _ => exact boxed rfl

namespace Wrapped

variable {v : Value} {obj : Option Ref} {y : World σ}

theorem calm (wrapped : Wrapped w v obj x) : Calm w x := by
  cases wrapped with
  | primitive _ made => exact made.calm
  | _ => exact .refl w

theorem quiet (wrapped : Wrapped w v obj x) (before : w.disturbed = []) : x.disturbed = [] := by
  cases wrapped with
  | primitive _ made => exact made.quiet before
  | _ => exact before

theorem same {s : Option Ref} (wrapped : Wrapped w (.reference s) obj x) : w = x := by
  cases wrapped with
  | reference => rfl
  | primitive kind => contradiction

theorem live (wrapped : Wrapped w v obj x) (answers : ∀ s, v = .reference s → ∃ k, w.vm.heap.Denotes s k) :
    ∃ k, x.vm.heap.Denotes obj k := by
  cases wrapped with
  | void => exact ⟨none, trivial⟩
  | reference => exact answers _ rfl
  | primitive _ made => exact ⟨_, made.denotes⟩

theorem carried (wrapped : Wrapped w v obj x) (answers : ∀ s, v = .reference s → ∃ k, w.vm.heap.Denotes s k)
    (heap : y.vm.heap = x.vm.heap) : Carried w.vm.heap y.vm.heap v v := by
  cases wrapped with
  | void => exact .plain (by decide)
  | reference =>
    obtain ⟨k, denotes⟩ := answers _ rfl
    exact .reference ⟨k, denotes, heap ▸ denotes⟩
  | primitive kind => exact .plain (Tag.primitiveOther kind)

theorem convertRun {m : MethodAddress} {info : Method} (wrapped : Wrapped w v obj x)
    (heap : y.vm.heap = x.vm.heap) (known : method m y = .ok (info, y))
    (returns : ∀ s, v = .reference s → y.Returns m s) :
    (Boxing.convertResult m v.tag obj).run y = .ok (.ok v, y) := by
  cases wrapped with
  | void => exact yieldsRun known .void
  | reference => exact convertReferenceRun known (returns _ rfl)
  | @primitive _ b _ kind made =>
    have at_ : y.vm.heap.get? b = some (.boxed v) := by
      rw [heap]
      exact (Heap.denotesGet made.denotes).trans made.object
    exact yieldsRun known (.primitive kind at_ (Value.widenSame kind))

end Wrapped
end Detour
