import Detour.Proofs.Hook.Forwarding
import Detour.Proofs.Hook.Relaying
import Detour.Proofs.MovingObjects

/-! A hook whose handler passes calls on is transparent. The method's body is entered once, with what it
would be given without the hook, and its outcome goes to the caller as it is; in between, objects move and
handles come and go. -/
namespace Detour

open World

variable {σ : Type} {p : Rights σ} {w x y z : World σ}

structure WellTyped (w : World σ) (r : InstalledHook) (receiver : Option Ref) (args : List Value) : Prop where
  proper : Proper w r receiver args
  absent : r.isStatic = true → receiver = none
  present : r.isStatic = false → ∃ s, receiver = some s ∧
    ∀ c, r.snapshot.descriptor.declaringClass = some c → isInstance s c w = .ok (true, w)
  accepted : ∀ info, method r.method w = .ok (info, w) → ∀ (j : Nat) s c,
    args[j]? = some (.reference (some s)) → (info.paramClasses[j]?).join = some c →
      isInstance s c w = .ok (true, w)

/-- A hooked call that is its method's body, entered in `x`, and handing on what the body comes to. -/
structure Transparent (g : Guest σ) (depth index : Nat) (r : InstalledHook) (receiver : Option Ref)
    (args : List Value) (w x : World σ) (receiver' : Option Ref) (values : List Value)
    (rest : Except RuntimeError Value → Machine σ (Except RuntimeError Value)) : Prop where
  run : (call g (depth + 2) (.live index) receiver args).run w = (do
    let outcome ← (g.body r.bodyIndex (call g depth) receiver' values).attempt
    rest outcome) (x.counted r.bodyIndex)
  tidy : Tidy w x
  receives : Same w.vm.heap x.vm.heap receiver receiver'
  passes : List.Forall₂ (Carried w.vm.heap x.vm.heap) args values
  ends : ∀ outcome y, (g.body r.bodyIndex (call g depth) receiver' values).run (x.counted r.bodyIndex) =
      .ok (outcome, y) → y.disturbed = [] → r.Answers y outcome →
    RanOut y 1 ((call g (depth + 2) (.live index) receiver args).run w) ∨
      ∃ result z, (call g (depth + 2) (.live index) receiver args).run w = .ok (result, z) ∧
        Handed y z outcome result ∧ z.vm.methods = y.vm.methods ∧ z.user = y.user

theorem Handler.Forwards.served {g : Guest σ} {m : MethodAddress} {h : Handler} {free : Handle → Prop}
    {still : Nat → Prop} (forwards : h.Forwards g w m) (served : Served free still w x) :
    h.Forwards g x m := by
  cases h with
  | plain id => exact forwards
  | chain c =>
    obtain ⟨chain, found, idle⟩ := forwards
    exact ⟨chain, served.chains ▸ found, idle⟩

section Call

variable {g : Guest σ} {depth index id : Nat} {r : InstalledHook} {d : Descriptor} {info : Method}
  {receiver receiver' : Option Ref} {args values : List Value} {k : Option Nat} {all xs : List Passed}
  {boxed : BoxedFrame} {frame : Frame} {u : World σ}
  {rest : Except CallError (Option Ref) → Machine σ (Except CallError (Option Ref))}

structure Crossed (p : Rights σ) (g : Guest σ) (depth id : Nat) (r : InstalledHook) (boxed : BoxedFrame)
    (u x : World σ) (receiver : Option Ref) (values : List Value)
    (rest : Except CallError (Option Ref) → Machine σ (Except CallError (Option Ref))) : Prop where
  run : (r.interceptor.handler.answer g (call g (depth + 1)) ⟨id, boxed⟩).run u = (do
    let outcome ← (g.body r.bodyIndex (call g depth) receiver values).attempt
    let outcome ← wrapOutcome outcome
    rest outcome) (x.counted r.bodyIndex)
  calm : Calm u x
  back : ∀ outcome y, Leads p x.vm.handles.next x y → y.lost = none →
    (∀ obj, outcome = .ok obj → ∃ k, y.vm.heap.Denotes obj k) →
    Step.Ends (fun _ => False) (rest outcome) y fun result z => result = outcome ∧ Handled y z

theorem Entered.crossed (entered : Entered g (depth + 1) index id r receiver args w all boxed frame u)
    (passing : Passing w r receiver args k xs all) (active : Active w index d id r) (steady : Steady p w)
    (known : method (.live index) w = .ok (info, w)) (typed : WellTyped w r receiver args)
    (quiet : w.disturbed = []) (forwards : r.interceptor.handler.Forwards g w (.live index)) :
    ∃ x receiver' values rest, Crossed p g depth id r boxed u x receiver' values rest ∧ Tidy w x ∧
      Same w.vm.heap x.vm.heap receiver receiver' ∧ List.Forall₂ (Carried w.vm.heap x.vm.heap) args values := by
  have later := steady.tidy entered.tidy
  obtain ⟨s, _, received, rfl, there⟩ :=
    (entered.keeps.receiverEnds (T := fun _ => False) passing.head passing.absent later.lost).sure
  obtain ⟨es, _, given, rfl, ys, denote, wrap⟩ :=
    (entered.keeps.argumentsEnds (T := fun _ => False) later.lost).sure
  rw [passing.params] at wrap
  have recorded := (active.served entered.tidy).hooked.found
  obtain ⟨s', es', x, rest, passes⟩ := forwarded g (call g (depth + 1)) ⟨id, boxed⟩ later
    (forwards.served entered.tidy) recorded active.hooked.method received there given denote
  have tidy : Tidy w x := entered.tidy.trans passes.calm.served
  have classes := passes.handled.classes.trans entered.classes
  have found : method (.live index) x = .ok (info, x) := by
    obtain ⟨_, is, at_⟩ := methodIff.mp known
    exact methodIff.mpr ⟨_, (tidy.descriptor _).trans is, tidy.methods ▸ at_⟩
  have instance_ (dynamic : r.isStatic = false) : ∃ t, s' = some t ∧
      ∀ c, r.snapshot.descriptor.declaringClass = some c → x.IsA t c := by
    obtain ⟨q, rfl, is⟩ := typed.present dynamic
    have same : Same w.vm.heap x.vm.heap (some q) s' := ⟨k, passing.receives dynamic, passes.receiver⟩
    obtain ⟨t, rfl⟩ := same.some
    exact ⟨t, rfl, fun c declared => (isInstanceIff.mp (is c declared)).moved same tidy.vm classes⟩
  have wrapped : List.Forall₂ x.vm.heap.Wraps xs ys := passes.handled.heap ▸ wrap
  obtain ⟨values, carried, enters⟩ := callUnhookedRun g depth (active.served tidy) found
    (passes.handled.disturbed.trans (entered.quiet quiet)) typed.proper.kinds instance_
    (boxesAll passing.passed wrapped passes.args) fun j s t c is declared same =>
      (isInstanceIff.mp (typed.accepted info (active.hooked.method ▸ known) j s c is declared)).moved
        same tidy.vm classes
  refine ⟨x, if r.isStatic then none else s', values, rest, ⟨?_, passes.calm, passes.back⟩, tidy, ?_, carried⟩
  · rw [passes.run]
    exact (Step.bindSame enters).trans (by rw [bind_assoc])
  · cases static : r.isStatic with
    | true => exact ⟨none, by simp [typed.absent static], by simp⟩
    | false => exact ⟨k, passing.receives static, by simpa using passes.receiver⟩

theorem Crossed.leads {outcome : Except RuntimeError Value}
    (crossed : Crossed p g depth id r boxed u x receiver' values rest) (lawful : g.Lawful p) (ready : Ready p u)
    (run : (g.body r.bodyIndex (call g depth) receiver' values).run (x.counted r.bodyIndex) = .ok (outcome, y)) :
    Leads p x.vm.handles.next x y := by
  have here : Ready p x := ((Within.start ready).calm crossed.calm).still
  have counted : Leads p x.vm.handles.next x (x.counted r.bodyIndex) := .moves (.refl x) (.counts _)
  have respects := lawful.body (call g depth) (callRespects lawful depth) r.bodyIndex receiver' values
  have body := Step.Ends.result (respects _ (counted.ready here)) run
  exact counted.trans body

theorem Crossed.relays (crossed : Crossed p g depth id r boxed u x receiver' values rest) (lawful : g.Lawful p)
    (steady : Steady p u) : Relays p g (depth + 1) id r boxed u (x.counted r.bodyIndex)
      (g.body r.bodyIndex (call g depth) receiver' values) rest where
  run := crossed.run
  back outcome y run answer z calm live := by
    have first := ((Within.start steady.ready).calm crossed.calm).leads
    have leads := crossed.leads lawful steady.ready run
    have later : Leads p x.vm.handles.next x z := calm.further leads
    exact crossed.back answer z later ((steady.leads first).leads later).lost live

end Call

theorem unhookedRun {g : Guest σ} {depth index id : Nat} {r : InstalledHook} {d : Descriptor} {info : Method}
    {receiver : Option Ref} {args : List Value} (active : Active w index d id r)
    (known : method (.live index) w = .ok (info, w)) :
    (call g (depth + 1) (.live index) receiver args).run (w.withDescriptor (.live index) r.snapshot.descriptor) =
      (g.body r.bodyIndex (call g depth) receiver args).run
        ((w.withDescriptor (.live index) r.snapshot.descriptor).counted r.bodyIndex) := by
  have found : (w.withDescriptor (.live index) r.snapshot.descriptor).descriptor? (.live index) =
      some r.snapshot.descriptor := by
    rw [withDescriptorLive, if_pos rfl, active.found]
    rfl
  obtain ⟨_, is, there⟩ := methodIff.mp known
  cases active.found.symm.trans is
  obtain ⟨info', there'⟩ : ∃ info',
      (w.withDescriptor (.live index) r.snapshot.descriptor).vm.methods[r.bodyIndex]? = some info' := by
    have at_ : w.vm.methods[r.bodyIndex]? = some info := by
      rw [active.hooked.coded] at there
      exact there
    simp only [withDescriptor, List.getElem?_modify, at_]
    exact ⟨_, rfl⟩
  refine callPlainRun found active.hooked.plain (methodIff.mpr ⟨_, found, there'⟩) fun c static is => ?_
  obtain ⟨c', is', done⟩ := active.made.declared
  cases is.symm.trans is'
  exact done static

theorem hookTransparent (mine : σ → Handle → Prop) (arch : Architecture) (layout : Layout) (user : σ)
    (nothing : ∀ h, ¬ mine user h) (w : World σ)
    (reachable : Reachable (.owning mine) (World.start (Vm.start arch layout) user) w) (quiet : w.disturbed = [])
    (index id : Nat) (recorded : w.recordOf (.live index) = some id) (r : InstalledHook)
    (found : w.records[id]? = some r) (configured : r.interceptor.arch = arch) (g : Guest σ)
    (lawful : g.Lawful (.owning mine)) (forwards : r.interceptor.handler.Forwards g w (.live index)) (depth : Nat)
    (receiver : Option Ref) (args : List Value) (typed : WellTyped w r receiver args) :
    (call g (depth + 1) (.live index) receiver args).run (w.withDescriptor (.live index) r.snapshot.descriptor) =
        (g.body r.bodyIndex (call g depth) receiver args).run
          ((w.withDescriptor (.live index) r.snapshot.descriptor).counted r.bodyIndex) ∧
      (RanOut w (r.slots.length + 2) ((call g (depth + 2) (.live index) receiver args).run w) ∨
        ∃ x receiver' values rest, Transparent g depth index r receiver args w x receiver' values rest) := by
  obtain ⟨steady, sound, d, active⟩ := reachable.active nothing recorded found configured
  obtain ⟨info, _, known⟩ := methodRun sound active.found
  refine ⟨unhookedRun active known, ?_⟩
  obtain ⟨k, xs, all, passing⟩ := Passing.ofProper typed.proper (Descriptor.shortyProper active.shorty)
  rcases callEntered active typed.proper passing steady.lost with
    ran | ⟨disturbed, _⟩ | ⟨boxed, frame, u, entered⟩
  · exact Or.inl ran
  · exact (disturbed quiet).elim
  · obtain ⟨x, receiver', values, rest, crossed, tidy, receives, passes⟩ :=
      entered.crossed passing active steady known typed quiet forwards
    let back (outcome : Except RuntimeError Value) : Machine σ (Except RuntimeError Value) := do
      let result ← rest (← wrapOutcome outcome)
      finishCall r frame boxed result
    have later := steady.leads ((Within.start steady.ready).tidy entered.tidy).leads
    have relays := crossed.relays lawful later
    refine Or.inr ⟨x, receiver', values, back, ?_⟩
    exact {
      run := relays.called entered
      tidy
      receives
      passes
      ends := fun outcome y run quiet answers => by
        cases outcome with
        | error e =>
          refine (relays.error lawful steady active entered run).imp_right ?_
          rintro ⟨thrown, z, ended, handed, methods, user, _⟩
          exact ⟨_, z, ended, handed, methods, user⟩
        | ok v =>
          refine (relays.value lawful steady sound active entered run quiet answers).imp_right ?_
          rintro ⟨obj, z, z', ended, wrapped, handled, _⟩
          refine ⟨_, z', ended, .value (wrapped.carried (fun s is => (answers.2 s is).1) handled.heap), ?_, ?_⟩
          · exact handled.methods.trans wrapped.calm.methods
          · exact handled.user.trans wrapped.calm.user }

namespace Sample

def passing : Guest Unit where
  body _ _ receiver _ := pure (.reference receiver)
  handler _ invoke i := i.forward invoke
  before _ _ s := pure (.ok (), s)
  after _ _ s := pure (.ok (), s)

theorem passingLawful (p : Rights Unit) : passing.Lawful p where
  body _ _ _ _ _ w _ := Leads.refl w
  handler invoke respects _ i := by
    refine respectsOf fun n w₀ w within => ?_
    refine Within.bind (Within.lifts (within.looks i.boxed.looksReceiver)) fun receiver x within => ?_
    refine Within.bind (Within.lifts (within.looks i.boxed.looksArguments)) fun args y within => ?_
    exact within.respects (i.proceedRespects respects receiver args)
  before _ _ _ s w a _ := ⟨a, .refl⟩
  after _ _ _ s w a _ := ⟨a, .refl⟩

theorem movingInstalled : Reachable (Rights.owning nobody) fresh moving := by
  have run : (Transaction.begin host).install (fun _ => pure ()) (.live 0) (some first) ready =
      .ok ((.ok 0, (Transaction.begin host).note (.live 0)), taken) := Step.bindRun won.run
  have lawful : Install.Lawful (Rights.owning nobody) fun _ => pure () := fun _ w _ => Leads.refl w
  have taken : Reachable (Rights.owning nobody) fresh taken :=
    .installs (t := .begin host) readyReached hostMade lawful run
  exact .between (n := 0) taken (.moves (.refl _) (.runs (.switched true)))

theorem properPass : Proper moving record (some first) [.int 7, .reference (some first)] where
  kinds := rfl
  receiver _ := ⟨some 0, rfl, by decide⟩
  live s mem := by
    have same : s = some first := by simpa using mem
    exact ⟨some 0, same ▸ ⟨rfl, by decide⟩⟩

theorem firstObject : isInstance first .object moving = .ok (true, moving) := by
  refine isInstanceIff.mpr ⟨0, .object, ⟨rfl, by decide⟩, ⟨.instance .object, rfl, rfl⟩, ?_⟩
  unfold ClassTable.isAssignable
  rw [ClassTable.lineage]
  rfl

theorem typedPass : WellTyped moving record (some first) [.int 7, .reference (some first)] where
  proper := properPass
  absent static := nomatch static
  present _ := ⟨first, rfl, fun c declared => by
    cases declared
    exact firstObject⟩
  accepted info known j s c is declared := by
    cases known
    match j, is, declared with
    | 1, is, declared =>
      cases is
      cases declared
      exact firstObject

end Sample

theorem samplePassed :
    (call Sample.passing 1 (.live 0) (some Sample.first) [.int 7, .reference (some Sample.first)]).run
          (Sample.moving.withDescriptor (.live 0) Sample.record.snapshot.descriptor) =
        (Sample.passing.body 0 (call Sample.passing 0) (some Sample.first)
          [.int 7, .reference (some Sample.first)]).run
            ((Sample.moving.withDescriptor (.live 0) Sample.record.snapshot.descriptor).counted 0) ∧
      ∃ x receiver values rest, Transparent Sample.passing 0 0 Sample.record (some Sample.first)
        [.int 7, .reference (some Sample.first)] Sample.moving x receiver values rest := by
  have passes := hookTransparent Sample.nobody .arm Layout.compiled () (fun _ own => own) Sample.moving
    Sample.movingInstalled rfl 0 0 rfl Sample.record rfl rfl Sample.passing (Sample.passingLawful _)
    (fun _ _ => rfl) 0 (some Sample.first) [.int 7, .reference (some Sample.first)] Sample.typedPass
  exact ⟨passes.1, passes.2.resolve_left fun ran => ran.short Sample.movingRoom⟩

end Detour
