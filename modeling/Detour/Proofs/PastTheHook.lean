import Detour.Proofs.Hook.Bypass

/-! A call past a hook beside the same call without the hook. What it checks is read from the live descriptor,
which the hook has changed; what it enters is the copy in the snapshot. The two runs are followed side by side
up to the body: a hook changes nothing that the checks look at. -/
namespace Detour

open World

variable {σ s t α β γ δ ε : Type}

inductive Alike (R : α → β → Prop) (w : s) (x : t) (c : Step s α) (d : Step t β) : Prop
  | fault {f} (left : c w = .error f) (right : d x = .error f) : Alike R w x c d
  | value {a b} (left : c w = .ok (a, w)) (right : d x = .ok (b, x)) (same : R a b) : Alike R w x c d

namespace Alike

variable {w : s} {x : t} {R : α → β → Prop} {S : γ → δ → Prop}

theorem pure {a : α} {b : β} (same : R a b) : Alike R w x (Pure.pure a) (Pure.pure b) :=
  .value rfl rfl same

theorem get {R : s → t → Prop} (same : R w x) : Alike R w x MonadState.get MonadState.get := .value rfl rfl same

theorem require {f : Fault} {o : Option α} {p : Option β} (same : Option.Rel R o p) :
    Alike R w x (Step.require f o) (Step.require f p) := by
  cases same with
  | none => exact .fault rfl rfl
  | some same => exact .value rfl rfl same

theorem failed (f : Fault) : Alike R w x (Step.fault f) (Step.fault f) := .fault rfl rfl

theorem bind {c : Step s α} {d : Step t β} {f : α → Step s γ} {h : β → Step t δ} (first : Alike R w x c d)
    (rest : ∀ a b, R a b → Alike S w x (f a) (h b)) : Alike S w x (c >>= f) (d >>= h) := by
  cases first with
  | fault left right => exact .fault (Step.bindFault left) (Step.bindFault right)
  | value left right same =>
    cases rest _ _ same with
    | fault left' right' => exact .fault ((Step.bindRun left).trans left') ((Step.bindRun right).trans right')
    | value left' right' same' =>
      exact .value ((Step.bindRun left).trans left') ((Step.bindRun right).trans right') same'

theorem zoom {u v : Type} {w : u} {x : v} {part : u → s} {replace : u → s → u} {part' : v → t}
    {replace' : v → t → v} {c : Step s α} {d : Step t β} (alike : Alike R (part w) (part' x) c d)
    (same : replace w (part w) = w) (same' : replace' x (part' x) = x) :
    Alike R w x (Step.zoom part replace c) (Step.zoom part' replace' d) := by
  cases alike with
  | @fault f left right => exact .fault (f := f) (by simp [Step.zoom, left]) (by simp [Step.zoom, right])
  | value left right is =>
    exact .value (by simp [Step.zoom, left, same]) (by simp [Step.zoom, right, same']) is

/-! Actions side by side. -/

theorem lifted {c : Step s α} {d : Step t β} {f : α → Action s ε γ} {h : β → Action t ε γ}
    (first : Alike R w x c d) (rest : ∀ a b, R a b → Alike Eq w x (f a).run (h b).run) :
    Alike Eq w x (lift c >>= f).run (lift d >>= h).run := by
  rw [Action.runLift, Action.runLift]
  exact bind first rest

theorem act {c : Action s ε α} {d : Action t ε α} {f : α → Action s ε γ} {h : α → Action t ε γ}
    (first : Alike Eq w x c.run d.run) (rest : ∀ a, Alike Eq w x (f a).run (h a).run) :
    Alike Eq w x (c >>= f).run (d >>= h).run := by
  refine bind first fun r r' same => ?_
  subst same
  cases r with
  | ok a => exact rest a
  | error e => exact pure rfl

theorem throws (e : ε) : Alike Eq w x (throw e : Action s ε α).run (throw e : Action t ε α).run := pure rfl

theorem ofExcept (r : Except ε α) :
    Alike Eq w x (Action.ofExcept r : Action s ε α).run (Action.ofExcept r : Action t ε α).run := by
  cases r <;> exact pure rfl

theorem mapError {f : ε → δ} {c : Action s ε α} {d : Action t ε α} (alike : Alike Eq w x c.run d.run) :
    Alike Eq w x (Action.mapError f c).run (Action.mapError f d).run := by
  change Alike Eq w x (c.run >>= fun r => Pure.pure (r.mapError f)) (d.run >>= fun r => Pure.pure (r.mapError f))
  refine bind alike fun r r' same => ?_
  subst same
  exact pure rfl

end Alike

/-! ## What a call past a hook does -/

def checked (m : MethodAddress) (receiver : Option Ref) (args : List (Option Ref)) :
    Act σ CallError (Option Ref × List Value) := do
  let d ← lift (descriptor m)
  let shorty ← Action.mapError .hook (Action.ofExcept d.shorty)
  let receiver ← checkReceiver m receiver
  let values ← Boxing.convertArguments m shorty args
  return (receiver, values)

def enterBody (g : Guest σ) (depth number : Nat) (receiver : Option Ref) (values : List Value) :
    Machine σ (Except CallError (Option Ref)) := do
  match ← (serve .invoke).attempt with
  | .error e => return .error (.runtime e)
  | .ok () =>
    countCall number
    wrapOutcome (← (g.body number (call g depth) receiver values).attempt)

theorem callCheckedParts (invoke : Invoker σ) (m target : MethodAddress) (receiver : Option Ref)
    (args : List (Option Ref)) :
    callChecked invoke m target receiver args = (do
      let (receiver, values) ← checked m receiver args
      let result ← Action.mapError .runtime (invoke.serve target receiver values)
      Action.mapError .runtime (Boxing.wrapResult result)) := by
  simp only [callChecked, checked, bind_assoc, pure_bind]

/-! ## The world without the hook -/

def World.unpatched (w : World σ) (index : Nat) (r : InstalledHook) : World σ :=
  w.withDescriptor (.live index) r.snapshot.descriptor

structure Method.Like (a b : Method) : Prop where
  name : b.name = a.name
  params : b.paramClasses = a.paramClasses
  result : b.resultClass = a.resultClass

section Checks

variable {w : World σ} {index id : Nat} {d : Descriptor} {r : InstalledHook}

theorem Hooked.unpatchedFound (found : w.descriptor? (.live index) = some d) :
    (w.unpatched index r).descriptor? (.live index) = some r.snapshot.descriptor := by
  rw [unpatched, withDescriptorLive, if_pos rfl, found]
  rfl

theorem unpatchedMethods (w : World σ) (index : Nat) (r : InstalledHook) (n : Nat) :
    Option.Rel Method.Like w.vm.methods[n]? (w.unpatched index r).vm.methods[n]? := by
  simp only [unpatched, withDescriptor, List.getElem?_modify]
  cases w.vm.methods[n]? with
  | none => exact .none
  | some info => split <;> exact .some ⟨rfl, rfl, rfl⟩

/-! The runtime's own looks do not come to methods. -/

structure Vm.Level (vm vm' : Vm) : Prop where
  heap : vm'.heap = vm.heap
  classes : vm'.classes = vm.classes

theorem unpatchedLevel (w : World σ) (index : Nat) (r : InstalledHook) : w.vm.Level (w.unpatched index r).vm :=
  ⟨rfl, rfl⟩

section Looking

variable {vm vm' : Vm}

theorem alikeRead {o : Vm → Option α} (f : Fault) (same : o vm = o vm') :
    Alike Eq vm vm' (do Step.require f (o (← get))) (do Step.require f (o (← get))) := by
  refine Alike.bind (R := fun a b => o a = o b) (.get same) fun a b same => ?_
  rw [same]
  cases o b with
  | none => exact .failed f
  | some v => exact .pure rfl

theorem alikeObject (level : vm.Level vm') (o : Ref) : Alike Eq vm vm' (Vm.object o) (Vm.object o) :=
  alikeRead (o := fun vm => vm.heap.get? o) (.staleReference o) (by rw [level.heap])

theorem alikeClassOf (level : vm.Level vm') (o : Ref) : Alike Eq vm vm' (Vm.classOf o) (Vm.classOf o) := by
  refine Alike.bind (alikeObject level o) fun a b same => ?_
  subst same
  cases a with
  | boxed v =>
    dsimp only
    cases ClassId.wrapper? v.tag with
    | none => exact .failed _
    | some c => exact .pure rfl
  | _ => exact .pure rfl

theorem alikeClassName (level : vm.Level vm') (c : ClassId) :
    Alike Eq vm vm' (Vm.className c) (Vm.className c) :=
  .value rfl (by rw [← level.classes]; rfl) rfl

theorem alikeTypeName (level : vm.Level vm') (o : Ref) :
    Alike Eq vm vm' (Vm.typeName o) (Vm.typeName o) := by
  refine Alike.bind (alikeClassOf level o) fun a b same => ?_
  subst same
  exact alikeClassName level a

theorem alikeIsInstance (level : vm.Level vm') (o : Ref) (c : ClassId) :
    Alike Eq vm vm' (Vm.isInstance o c) (Vm.isInstance o c) := by
  refine Alike.bind (alikeClassOf level o) fun a b same => ?_
  subst same
  exact .value rfl (by rw [← level.classes]; rfl) rfl

theorem alikeUnbox (level : vm.Level vm') (o : Ref) : Alike Eq vm vm' (Vm.unbox o) (Vm.unbox o) := by
  refine Alike.bind (alikeObject level o) fun a b same => ?_
  subst same
  cases a <;> exact .pure rfl

theorem alikeMethod (methods : ∀ n : Nat, Option.Rel Method.Like vm.methods[n]? vm'.methods[n]?)
    (number : UInt64) :
    Alike Method.Like vm vm' (Vm.method number) (Vm.method number) := by
  refine Alike.bind (R := fun a b => a = vm ∧ b = vm') (.get ⟨rfl, rfl⟩) fun _ _ is => ?_
  obtain ⟨rfl, rfl⟩ := is
  exact .require (methods _)

end Looking

theorem alikeVm {x : World σ} {R : α → β → Prop} {c : Step Vm α} {d : Step Vm β}
    (alike : Alike R w.vm x.vm c d) : Alike R w x (vmStep c) (vmStep d) :=
  alike.zoom rfl rfl

variable (found : w.descriptor? (.live index) = some d) (hooked : Hooked w index d id r)

include found in
theorem alikeDescriptor : Alike (fun a b => a = d ∧ b = r.snapshot.descriptor) w (w.unpatched index r)
    (descriptor (.live index)) (descriptor (.live index)) :=
  .value (descriptorRun found) (descriptorRun (Hooked.unpatchedFound found)) ⟨rfl, rfl⟩

include found hooked in
theorem alikeInfo : Alike Method.Like w (w.unpatched index r) (method (.live index)) (method (.live index)) := by
  refine Alike.bind (alikeDescriptor found) fun a b is => ?_
  obtain ⟨rfl, rfl⟩ := is
  rw [hooked.coded]
  exact alikeVm (alikeMethod (unpatchedMethods w index r) _)

theorem alikeTypeThrown {o : Ref} (f : String → ε) :
    Alike Eq w (w.unpatched index r) (do throw (f (← lift (typeName o))) : Act σ ε α).run
      (do throw (f (← lift (typeName o))) : Act σ ε α).run :=
  Alike.lifted (alikeVm (alikeTypeName (unpatchedLevel w index r) o)) fun _ _ same => same ▸ .throws _

theorem alikeClassThrown {o : Ref} (c : ClassId) (f : String → String → ε) :
    Alike Eq w (w.unpatched index r) (do throw (f (← lift (className c)) (← lift (typeName o))) : Act σ ε α).run
      (do throw (f (← lift (className c)) (← lift (typeName o))) : Act σ ε α).run :=
  Alike.lifted (alikeVm (alikeClassName (unpatchedLevel w index r) c)) fun _ _ same => same ▸ alikeTypeThrown _

include found hooked in
theorem alikeDescribe :
    Alike Eq w (w.unpatched index r) (describe (.live index)) (describe (.live index)) := by
  have last (owner : String) : Alike Eq w (w.unpatched index r)
      (do return owner ++ "." ++ (← method (.live index)).name : Machine σ String)
      (do return owner ++ "." ++ (← method (.live index)).name : Machine σ String) :=
    Alike.bind (alikeInfo found hooked) fun a b like => .pure (by rw [like.name])
  refine Alike.bind (alikeDescriptor found) fun a b is => ?_
  obtain ⟨rfl, rfl⟩ := is
  rw [hooked.declared]
  cases r.snapshot.descriptor.declaringClass with
  | none => exact last "?"
  | some c => exact Alike.bind (alikeVm (alikeClassName (unpatchedLevel w index r) c)) fun _ _ same => same ▸ last _

include found hooked in
theorem alikeReceiver (receiver : Option Ref) :
    Alike Eq w (w.unpatched index r) (checkReceiver (.live index) receiver).run
      (checkReceiver (.live index) receiver).run := by
  refine Alike.lifted (alikeDescriptor found) fun a b is => ?_
  obtain ⟨rfl, rfl⟩ := is
  rw [hooked.isStatic, hooked.declared]
  split
  next => exact .pure rfl
  next =>
    cases receiver with
    | none => exact Alike.lifted (alikeDescribe found hooked) fun _ _ same => same ▸ .throws _
    | some o =>
      cases r.snapshot.descriptor.declaringClass with
      | none => exact .pure rfl
      | some c =>
        refine Alike.lifted (alikeVm (alikeIsInstance (unpatchedLevel w index r) o c)) fun fits _ same => ?_
        subst same
        cases fits with
        | true => exact .pure rfl
        | false => exact alikeClassThrown c _

include found hooked in
theorem alikeArgument (n : Nat) (declared : Tag) (value : Option Ref) :
    Alike Eq w (w.unpatched index r) (Boxing.convertArgument (.live index) n declared value).run
      (Boxing.convertArgument (.live index) n declared value).run := by
  refine Alike.lifted (alikeInfo found hooked) fun a b like => ?_
  rw [like.name, like.params]
  dsimp only
  split
  next =>
    split
    next o c _ =>
      refine Alike.lifted (alikeVm (alikeIsInstance (unpatchedLevel w index r) o c)) fun fits _ same => ?_
      subst same
      cases fits with
      | true => exact .pure rfl
      | false => exact alikeClassThrown c _
    next => exact .pure rfl
  next =>
    split
    next => exact .throws _
    next o =>
      refine Alike.lifted (alikeVm (alikeUnbox (unpatchedLevel w index r) o)) fun stored _ same => ?_
      subst same
      split
      next => exact alikeTypeThrown _
      next => split <;> first | exact .throws _ | exact .pure rfl

include found hooked in
theorem alikeEach (n : Nat) (tags : List Tag) (args : List (Option Ref)) :
    Alike Eq w (w.unpatched index r) (Boxing.convertEach (.live index) n tags args).run
      (Boxing.convertEach (.live index) n tags args).run := by
  induction tags generalizing n args with
  | nil => exact .pure rfl
  | cons t tags ih =>
    cases args with
    | nil => exact .pure rfl
    | cons a args =>
      exact Alike.act (alikeArgument found hooked n t a) fun v =>
        Alike.act (ih (n + 1) args) fun vs => .pure rfl

include found hooked in
theorem alikeArguments (shorty : Shorty) (args : List (Option Ref)) :
    Alike Eq w (w.unpatched index r) (Boxing.convertArguments (.live index) shorty args).run
      (Boxing.convertArguments (.live index) shorty args).run := by
  unfold Boxing.convertArguments
  split
  next => exact .throws _
  next => exact alikeEach found hooked 0 _ args

include found hooked in
theorem alikeChecked (receiver : Option Ref) (args : List (Option Ref)) :
    Alike Eq w (w.unpatched index r) (checked (.live index) receiver args).run
      (checked (.live index) receiver args).run := by
  refine Alike.lifted (alikeDescriptor found) fun a b is => ?_
  obtain ⟨rfl, rfl⟩ := is
  rw [hooked.shorty]
  refine Alike.act (.mapError (.ofExcept _)) fun shorty => ?_
  refine Alike.act (alikeReceiver found hooked receiver) fun receiver => ?_
  exact Alike.act (alikeArguments found hooked shorty args) fun values => .pure rfl

end Checks

/-! ## From the checks to the body -/

/-- Calls of one method past its hook from two worlds, `w` with the hook and `x` without it: both end in the
same fault, both are refused with the same error, or both enter the same body with the same values. -/
inductive PassAlike (g : Guest σ) (depth index number : Nat) (receiver : Option Ref)
    (args : List (Option Ref)) (w x : World σ) : Prop
  | faults {f} (hooked : (callUnhooked (call g (depth + 1)) (.live index) receiver args).run w = .error f)
    (plain : (callUnhooked (call g (depth + 1)) (.live index) receiver args).run x = .error f) :
    PassAlike g depth index number receiver args w x
  | refused {e}
    (hooked : (callUnhooked (call g (depth + 1)) (.live index) receiver args).run w = .ok (.error e, w))
    (plain : (callUnhooked (call g (depth + 1)) (.live index) receiver args).run x = .ok (.error e, x)) :
    PassAlike g depth index number receiver args w x
  | enters {receiver' values}
    (hooked : (callUnhooked (call g (depth + 1)) (.live index) receiver args).run w =
      enterBody g depth number receiver' values w)
    (plain : (callUnhooked (call g (depth + 1)) (.live index) receiver args).run x =
      enterBody g depth number receiver' values x) : PassAlike g depth index number receiver args w x

section Entering

variable {w x : World σ} {g : Guest σ} {depth index id : Nat} {d : Descriptor} {r : InstalledHook}
  {m target : MethodAddress} {info : Method} {receiver : Option Ref} {args : List (Option Ref)}

structure Plain (x : World σ) (m : MethodAddress) (d : Descriptor) : Prop where
  found : x.descriptor? m = some d
  plain : d.isHooked = false
  known : ∃ info, x.vm.methods[d.codeItem.toNat - 1]? = some info
  done : ∀ c, d.isStatic = true → d.declaringClass = some c → x.vm.classes.isInitialized c = true

theorem Plain.disturbed (plain : Plain w m d) (same : x = { w with disturbed := x.disturbed }) : Plain x m d := by
  rw [same]
  exact ⟨by cases m <;> exact plain.found, plain.plain, plain.known, plain.done⟩

theorem Plain.enters (plain : Plain x target d) (receiver : Option Ref) (values : List Value) :
    (do
      let result ← Action.mapError .runtime ((call g (depth + 1)).serve target receiver values)
      Action.mapError .runtime (Boxing.wrapResult result) : Act σ CallError (Option Ref)).run x =
      enterBody g depth (d.codeItem.toNat - 1) receiver values x := by
  unfold Invoker.serve
  rw [Action.runMapError, Action.runBind, bind_assoc]
  refine Step.bindAgree fun o y run => ?_
  have still := plain.disturbed ((serveEnds (T := fun _ => True) .invoke).result run).1
  cases o with
  | error e => rfl
  | ok =>
    obtain ⟨info, there⟩ := still.known
    have body : (call g (depth + 1) target receiver values).run y = _ :=
      callPlainRun still.found still.plain (methodIff.mpr ⟨d, still.found, there⟩) still.done
    have counts : countCall (d.codeItem.toNat - 1) y = .ok ((), y.counted (d.codeItem.toNat - 1)) := rfl
    dsimp only
    rw [Step.bindRun counts, Step.bindSame body]
    refine congrFun (bind_congr fun outcome => ?_) _
    cases outcome <;> rfl

theorem passAlike {e : Descriptor} {copy : MethodAddress} (stands : unhookedOf w (.live index) = copy)
    (plain : Plain w copy d) (itself : unhookedOf x (.live index) = .live index) (plain' : Plain x (.live index) e)
    (coded : e.codeItem = d.codeItem)
    (alike : Alike Eq w x (checked (.live index) receiver args).run (checked (.live index) receiver args).run) :
    PassAlike g depth index (d.codeItem.toNat - 1) receiver args w x := by
  have hooked : (callUnhooked (call g (depth + 1)) (.live index) receiver args).run w = _ :=
    callUnhookedParts _ stands
  have unhooked : (callUnhooked (call g (depth + 1)) (.live index) receiver args).run x = _ :=
    callUnhookedParts _ itself
  rw [callCheckedParts] at hooked unhooked
  cases alike with
  | fault left right =>
    exact .faults (hooked.trans (Step.bindFault left)) (unhooked.trans (Step.bindFault right))
  | @value a b left right same =>
    subst same
    cases a with
    | error e => exact .refused (hooked.trans (Step.bindRun left)) (unhooked.trans (Step.bindRun right))
    | ok given =>
      obtain ⟨receiver', values⟩ := given
      have entered := (hooked.trans (Action.bindRun left)).trans (plain.enters receiver' values)
      have entered' := (unhooked.trans (Action.bindRun right)).trans (plain'.enters receiver' values)
      exact .enters entered (coded ▸ entered')

end Entering

theorem hookPassedBy (arch : Architecture) (layout : Layout) (user : σ) (w : World σ)
    (reachable : Reachable (Rights.free σ) (World.start (Vm.start arch layout) user) w) (index id : Nat)
    (recorded : w.recordOf (.live index) = some id) (r : InstalledHook) (found : w.records[id]? = some r)
    (g : Guest σ) (depth : Nat) (receiver : Option Ref) (args : List (Option Ref)) :
    w.isHooked (unhookedOf w (.live index)) = false ∧
      (w.unpatched index r).isHooked (unhookedOf (w.unpatched index r) (.live index)) = false ∧
      PassAlike g depth index r.bodyIndex receiver args w (w.unpatched index r) := by
  have ready : Ready (Rights.free σ) (World.start (Vm.start arch layout) user) :=
    ⟨rfl, fun _ still => still.elim, fun _ ⟨_, none_, _⟩ => nomatch none_⟩
  obtain ⟨sound, _, _⟩ := (reachable.leads ready).straight (soundStart arch layout user)
  obtain ⟨d, r', there, hooked⟩ := sound.recorded recorded
  cases hooked.found.symm.trans found
  obtain ⟨c, declared, done⟩ := (sound.made r (List.mem_of_getElem? found)).declared
  obtain ⟨info, at_, _⟩ := methodRun sound there
  rw [hooked.coded] at at_
  have stands : unhookedOf w (.live index) = .copy id := by simp [unhookedOf, recorded]
  have copied : w.descriptor? (.copy id) = some r.snapshot.descriptor := by simp [descriptor?, found]
  have back : (w.unpatched index r).descriptor? (.live index) = some r.snapshot.descriptor :=
    Hooked.unpatchedFound there
  have itself : unhookedOf (w.unpatched index r) (.live index) = .live index := by
    simp [unhookedOf, recordOf, back, Descriptor.record?, hooked.entry]
  have initialized : ∀ c', r.snapshot.descriptor.isStatic = true →
      r.snapshot.descriptor.declaringClass = some c' → w.vm.classes.isInitialized c' = true := by
    intro c' static is
    cases declared.symm.trans is
    exact done static
  have known : ∃ info', (w.unpatched index r).vm.methods[r.snapshot.descriptor.codeItem.toNat - 1]? = some info' := by
    have like := unpatchedMethods w index r (r.snapshot.descriptor.codeItem.toNat - 1)
    rw [at_] at like
    generalize (w.unpatched index r).vm.methods[r.snapshot.descriptor.codeItem.toNat - 1]? = o at like
    cases like with
    | some _ => exact ⟨_, rfl⟩
  refine ⟨?_, ?_, ?_⟩
  · simp [stands, World.isHooked, copied, hooked.plain]
  · simp [itself, World.isHooked, back, hooked.plain]
  · exact passAlike stands ⟨copied, hooked.plain, ⟨info, at_⟩, initialized⟩ itself
      ⟨back, hooked.plain, known, initialized⟩ rfl (alikeChecked there hooked receiver args)

theorem samplePassedBy :
    (Sample.hooked.recordOf (.live 0) = some 0 ∧
        Sample.hooked.records[0]? = some (Sample.captured.record Sample.interceptor Sample.method.descriptor)) ∧
      ∀ (g : Guest Unit) depth receiver args,
        PassAlike g depth 0 0 receiver args Sample.hooked (Sample.hooked.unpatched 0
          (Sample.captured.record Sample.interceptor Sample.method.descriptor)) :=
  ⟨⟨rfl, rfl⟩, fun g depth receiver args => (hookPassedBy .arm Layout.compiled () Sample.hooked
    Sample.hookedReachable 0 0 rfl _ rfl g depth receiver args).2.2⟩

end Detour
