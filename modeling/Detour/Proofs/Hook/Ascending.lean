import Detour.Proofs.Hook.Forwarding
import Detour.Proofs.Hook.Inheriting
import Detour.Proofs.Hook.Relaying

/-! Handlers that pass a call to the inherited implementation. From the entry of one hooked method the call
goes up to the entry of the method that it overrides, with the receiver and the arguments as they are; on the
way back the handles that held them are released. -/
namespace Detour

open World

variable {σ : Type} {p : Rights σ} {w x y z : World σ} {note : Nat → σ → σ}

def World.noted (w : World σ) (note : Nat → σ → σ) (id : Nat) : World σ := { w with user := note id w.user }

def HookedCall.ascend (note : Nat → σ → σ) (invoke : Invoker σ) (i : HookedCall) :
    Act σ CallError (Option Ref) := do
  lift (modify fun w => w.noted note i.record : Machine σ Unit)
  let receiver ← lift i.receiver
  let args ← lift i.arguments
  i.inherited invoke receiver args

def Handler.Ascends (g : Guest σ) (note : Nat → σ → σ) : Handler → Prop
  | .plain id => ∀ invoke i, g.handler id invoke i = i.ascend note invoke
  | .chain _ => False

theorem Handler.Ascends.answers {g : Guest σ} {h : Handler} (ascends : h.Ascends g note) (invoke : Invoker σ)
    (i : HookedCall) : h.answer g invoke i = i.ascend note invoke := by
  cases h with
  | plain id => exact ascends invoke i
  | chain => exact ascends.elim

theorem HookedCall.inheritedRespects {invoke : Invoker σ} (respects : Invoker.Respects p invoke) (i : HookedCall)
    (receiver : Option Ref) (args : List (Option Ref)) : Respects p (i.inherited invoke receiver args) := by
  refine respectsOf fun n w₀ w within => ?_
  refine Within.bind (Within.lifts (within.looks i.looksMethod)) fun m x within => ?_
  exact within.respects (callInheritedRespects respects m receiver args)

theorem HookedCall.ascendRespects {invoke : Invoker σ} (respects : Invoker.Respects p invoke)
    (takes : ∀ id user h, p.mine (note id user) h → p.mine user h) (i : HookedCall) :
    Respects p (i.ascend note invoke) := by
  refine respectsOf fun n w₀ w within => ?_
  refine Action.endsLiftBind.mpr (Step.endsModify.mpr ?_)
  have noted : Within p n w₀ (w.noted note i.record) :=
    ⟨within.since, within.ready, within.leads.moves (.owns _ fun h own => Or.inl (takes _ _ h own))⟩
  refine Within.bind (Within.lifts (noted.looks i.boxed.looksReceiver)) fun receiver x within => ?_
  refine Within.bind (Within.lifts (within.looks i.boxed.looksArguments)) fun args y within => ?_
  exact within.respects (i.inheritedRespects respects receiver args)

structure Climbed (p : Rights σ) (user : σ) (w x : World σ) : Prop where
  leads : Leads p w.vm.handles.next w x
  methods : x.vm.methods = w.vm.methods
  records : x.records = w.records
  kin : w.vm.classes.Kin x.vm.classes
  user : x.user = user
  quiet : x.disturbed = []

theorem Climbed.trans {user user' : σ} (first : Climbed p user w x) (second : Climbed p user' x y) :
    Climbed p user' w y where
  leads := first.leads.trans (second.leads.widen first.leads.issued)
  methods := second.methods.trans first.methods
  records := second.records.trans first.records
  kin := first.kin.trans second.kin
  user := second.user
  quiet := second.quiet

theorem Climbed.further {user : σ} (climbed : Climbed p user w x) (calm : Calm x y)
    (kin : x.vm.classes.Kin y.vm.classes) (quiet : y.disturbed = []) : Climbed p user w y where
  leads := calm.further climbed.leads
  methods := calm.methods.trans climbed.methods
  records := calm.records.trans climbed.records
  kin := climbed.kin.trans kin
  user := calm.user.trans climbed.user
  quiet

theorem Active.climbed {index id : Nat} {d : Descriptor} {r : InstalledHook} {user : σ}
    (active : Active w index d id r) (climbed : Climbed p user w x) : Active x index d id r where
  found := by simpa only [descriptor?, climbed.methods] using active.found
  hooked := { active.hooked with
    found := climbed.records ▸ active.hooked.found
    only := climbed.records ▸ active.hooked.only }
  made := { active.made with
    declared := by
      obtain ⟨c, declared, done⟩ := active.made.declared
      exact ⟨c, declared, fun static => climbed.leads.initialized c (done static)⟩ }
  arch := active.arch.trans climbed.leads.arch.symm

/-! ## The methods of a super chain -/

structure Declaration where
  name : String
  signature : String
  params : List (Option ClassId)
  result : Option ClassId

structure Vm.Overrides (vm : Vm) (m : Declaration) (c : ClassId) (index : Nat) : Prop where
  there : ∃ info, vm.methods[index]? = some info ∧ info.Declares c m.name m.signature ∧
    info.paramClasses = m.params ∧ info.resultClass = m.result ∧ info.descriptor.isStatic = false
  only : ∀ (j : Nat) info, vm.methods[j]? = some info → info.Declares c m.name m.signature → j = index
  starts : (vm.classes.get? c).any (·.initFails) = false

structure Rung (w : World σ) (m : Declaration) (shorty : Shorty) (c : ClassId) (index : Nat) (d : Descriptor)
    (info : Method) : Prop where
  at_ : w.vm.methods[index]? = some info
  descriptor : info.descriptor = d
  declares : info.Declares c m.name m.signature
  params : info.paramClasses = m.params
  result : info.resultClass = m.result
  declared : d.declaringClass = some c
  dynamic : d.isStatic = false
  read : d.shorty = .ok shorty
  numbered : d.codeItem.toNat = index + 1

namespace Rung

variable {m : Declaration} {shorty : Shorty} {c : ClassId} {index : Nat} {d : Descriptor} {info : Method}

theorem found (rung : Rung w m shorty c index d info) : w.descriptor? (.live index) = some d := by
  simp [descriptor?, rung.at_, rung.descriptor]

theorem known (rung : Rung w m shorty c index d info) : method (.live index) w = .ok (info, w) :=
  methodIff.mpr ⟨d, rung.found, by rw [rung.numbered]; exact rung.at_⟩

theorem same (rung : Rung w m shorty c index d info) (methods : x.vm.methods = w.vm.methods) :
    Rung x m shorty c index d info :=
  { rung with at_ := methods ▸ rung.at_ }

end Rung

theorem Vm.Overrides.resolved {m : Declaration} {c : ClassId} {index : Nat} (overrides : w.vm.Overrides m c index)
    (methods : x.vm.methods = w.vm.methods) : x.vm.resolve c m.name m.signature = some index := by
  obtain ⟨info, there, declares, _⟩ := overrides.there
  refine Vm.resolveOwn ⟨info, methods ▸ there, declares⟩ ?_
  rw [methods]
  exact overrides.only

/-! ## Receiver and arguments on their way up -/

structure Suits (w : World σ) (shorty : Shorty) (params : List (Option ClassId)) (c : ClassId) (receiver : Ref)
    (args : List Value) : Prop where
  instance_ : ∃ k s, w.vm.heap.Denotes (some receiver) (some k) ∧ w.vm.heap.Classed k s ∧
    c ∈ w.vm.classes.lineage s
  kinds : args.map Value.tag = shorty.params
  live : ∀ s, .reference s ∈ args → ∃ k, w.vm.heap.Denotes s k
  accepted : ∀ (j : Nat) s c, args[j]? = some (.reference (some s)) → (params[j]?).join = some c → w.IsA s c

theorem Same.trans {h₁ h₂ h₃ : Heap} {r s t : Option Ref} (first : Same h₁ h₂ r s) (second : Same h₂ h₃ s t) :
    Same h₁ h₃ r t := by
  obtain ⟨k, old, now⟩ := first
  obtain ⟨k', now', later⟩ := second
  cases Heap.denotesOne now now'
  exact ⟨k, old, later⟩

theorem Carried.trans {h₁ h₂ h₃ : Heap} {a b c : Value} (first : Carried h₁ h₂ a b) (second : Carried h₂ h₃ b c) :
    Carried h₁ h₃ a c := by
  cases first with
  | reference same =>
    cases second with
    | reference again => exact .reference (same.trans again)
    | plain kind => exact (kind rfl).elim
  | plain kind =>
    cases second with
    | reference => exact (kind rfl).elim
    | plain => exact .plain kind

theorem Carried.tag {h₁ h₂ : Heap} {a b : Value} (carried : Carried h₁ h₂ a b) : b.tag = a.tag := by
  cases carried <;> rfl

section CarriedAll

variable {h₁ h₂ h₃ : Heap} {args values others : List Value}

theorem carriedTrans (first : List.Forall₂ (Carried h₁ h₂) args values)
    (second : List.Forall₂ (Carried h₂ h₃) values others) : List.Forall₂ (Carried h₁ h₃) args others := by
  induction first generalizing others with
  | nil =>
    cases second
    exact .nil
  | cons head _ ih =>
    cases second with
    | cons again rest => exact .cons (head.trans again) (ih rest)

theorem carriedTags (carried : List.Forall₂ (Carried h₁ h₂) args values) :
    values.map Value.tag = args.map Value.tag := by
  induction carried with
  | nil => rfl
  | cons head _ ih => rw [List.map_cons, List.map_cons, head.tag, ih]

theorem carriedAt {j : Nat} {t : Option Ref} (carried : List.Forall₂ (Carried h₁ h₂) args values)
    (at_ : values[j]? = some (.reference t)) : ∃ s, args[j]? = some (.reference s) ∧ Same h₁ h₂ s t := by
  induction carried generalizing j with
  | nil => simp at at_
  | cons head _ ih =>
    cases j with
    | succ j => exact ih at_
    | zero =>
      cases at_
      cases head with
      | reference same => exact ⟨_, rfl, same⟩
      | plain kind => exact (kind rfl).elim

end CarriedAll

theorem Suits.proper {shorty : Shorty} {params : List (Option ClassId)} {c : ClassId} {receiver : Ref}
    {args : List Value} {r : InstalledHook} (suits : Suits w shorty params c receiver args)
    (read : r.shorty = shorty) : Proper w r (some receiver) args where
  kinds := read ▸ suits.kinds
  receiver _ := by
    obtain ⟨k, _, denotes, _⟩ := suits.instance_
    exact ⟨some k, denotes⟩
  live := suits.live

theorem Suits.climbs {shorty : Shorty} {params : List (Option ClassId)} {c s : ClassId} {receiver t : Ref}
    {args values : List Value} {user : σ} (suits : Suits w shorty params c receiver args)
    (climbed : Climbed p user w x) (above : w.vm.classes.superclass? c = some s) (below : s.index < c.index)
    (same : Same w.vm.heap x.vm.heap (some receiver) (some t))
    (carried : List.Forall₂ (Carried w.vm.heap x.vm.heap) args values) : Suits x shorty params s t values where
  instance_ := by
    obtain ⟨k, q, denotes, classed, inherits⟩ := suits.instance_
    obtain ⟨k', old, now⟩ := same
    cases Heap.denotesOne denotes old
    have classed : w.vm.bare.heap.Classed k q := classed
    refine ⟨k, q, now, climbed.leads.bare.classed classed, ?_⟩
    rw [climbed.kin.lineage]
    exact ClassTable.lineageUp above below inherits
  kinds := (carriedTags carried).trans suits.kinds
  live s mem := by
    obtain ⟨j, at_⟩ := List.mem_iff_getElem?.mp mem
    obtain ⟨_, _, k, _, now⟩ := carriedAt carried at_
    exact ⟨k, now⟩
  accepted j s' c' at_ declared := by
    obtain ⟨old, there, same⟩ := carriedAt carried at_
    obtain ⟨k, before, now⟩ := same
    cases old with
    | none => simp [Heap.denotesNull.mp before] at now
    | some q => exact (suits.accepted j q c' there declared).kept ⟨k, before, now⟩ climbed.leads.bare climbed.kin

/-! ## From a hooked method up to the one that it overrides -/

theorem BoxedFrame.Keeps.noted {b : BoxedFrame} {isStatic : Bool} {k : Nat} {xs : List Passed}
    (keeps : b.Keeps isStatic k xs w) (id : Nat) : b.Keeps isStatic k xs (w.noted note id) where
  hasReceiver := keeps.hasReceiver
  references := keeps.references
  array h is := ⟨(keeps.array h is).held, (keeps.array h is).shows_⟩
  without := keeps.without
  distinct := keeps.distinct

section Level

variable {g : Guest σ} {depth index id : Nat} {r : InstalledHook} {d : Descriptor} {info : Method}
  {receiver : Ref} {args : List Value} {o : Option Nat} {xs all : List Passed} {ys : List (Option Nat)}
  {boxed : BoxedFrame} {frame : Frame} {u v : World σ} {m : Declaration} {shorty : Shorty} {c s : ClassId}
  {h : Handle} {hs : List Handle}

structure Ascending (p : Rights σ) (g : Guest σ) (depth index id : Nat) (r : InstalledHook) (boxed : BoxedFrame)
    (s : ClassId) (user : σ) (w u : World σ) (o : Option Nat) (xs : List Passed) (ys : List (Option Nat))
    (h : Handle) (hs : List Handle) (v : World σ) : Prop where
  run : (r.interceptor.handler.answer g (call g depth) ⟨id, boxed⟩).run u = (do
    let outcome ← (callPinned (call g depth) (.live index) s h hs).attempt
    releaseAll (hs ++ [h])
    return outcome) v
  climbed : Climbed p user w v
  heap : v.vm.heap = u.vm.heap
  receiver : v.vm.Held h o
  args : List.Forall₂ v.vm.Held hs ys
  wrap : List.Forall₂ v.vm.heap.Wraps xs ys
  distinct : (hs ++ [h]).Nodup
  live : ∀ f ∈ hs ++ [h], ∃ k, v.vm.Held f k
  foreign : ∀ f ∈ hs ++ [h], ¬ p.mine v.user f

theorem HookedCall.ascendRun {invoke : Invoker σ} {i : HookedCall} {k : InstalledHook} {t : Option Ref}
    {ts : List (Option Ref)} (recorded : w.records[i.record]? = some k) (owner : k.method = .live index)
    (received : i.receiver (w.noted note i.record) = .ok (t, w.noted note i.record))
    (given : i.arguments (w.noted note i.record) = .ok (ts, w.noted note i.record)) :
    (i.ascend note invoke).run w = (callInherited invoke (.live index) t ts).run (w.noted note i.record) := by
  have noted : (modify fun w => w.noted note i.record : Machine σ Unit) w = .ok ((), w.noted note i.record) := rfl
  have recorded : (w.noted note i.record).records[i.record]? = some k := recorded
  unfold HookedCall.ascend
  rw [Action.liftBindRun noted, Action.liftBindRun received, Action.liftBindRun given]
  unfold HookedCall.inherited
  rw [Action.liftBindRun (HookedCall.methodRun recorded owner)]

theorem Entered.ascends (entered : Entered g depth index id r (some receiver) args w all boxed frame u)
    (passing : Passing w r (some receiver) args o xs all) (active : Active w index d id r) (steady : Steady p w)
    (quiet : w.disturbed = []) (ascends : r.interceptor.handler.Ascends g note)
    (takes : ∀ id user h, p.mine (note id user) h → p.mine user h) (rung : Rung w m shorty c index d info)
    (above : w.vm.classes.superclass? c = some s) :
    ∃ ys h hs v, Ascending p g depth index id r boxed s (note id w.user) w u o xs ys h hs v := by
  have first := ((Within.start steady.ready).tidy entered.tidy).leads
  have noted : Leads p u.vm.handles.next u (u.noted note id) :=
    .moves (.refl u) (.owns _ fun h own => Or.inl (takes id u.user h own))
  have before := first.trans (noted.widen first.issued)
  have later := steady.leads before
  have keeps : boxed.Keeps r.isStatic w.vm.heap.objects.size all (u.noted note id) := entered.keeps.noted id
  have dynamic : r.isStatic = false := active.isStatic.symm.trans rung.dynamic
  obtain ⟨a, _, received, rfl, denotes⟩ :=
    (keeps.receiverEnds (T := fun _ => False) passing.head passing.absent later.lost).sure
  obtain ⟨es, _, given, rfl, ys, denote, wrap⟩ := (keeps.argumentsEnds (T := fun _ => False) later.lost).sure
  rw [passing.params] at wrap
  have same : Same w.vm.heap u.vm.heap (some receiver) a := ⟨o, passing.receives dynamic, denotes⟩
  obtain ⟨t, rfl⟩ := same.some
  have found : (u.noted note id).descriptor? (.live index) = some d := (entered.tidy.descriptor _).trans rung.found
  have climbs : (u.noted note id).vm.classes.superclass? c = some s := entered.classes ▸ above
  obtain ⟨h, hs, v, retained, run⟩ :=
    callInheritedRun (call g depth) found rung.dynamic rung.declared climbs denotes denote
  have recorded : u.records[id]? = some r := entered.tidy.records ▸ active.hooked.found
  have answers : (r.interceptor.handler.answer g (call g depth) ⟨id, boxed⟩).run u =
      (callInherited (call g depth) (.live index) (some t) es).run (u.noted note id) := by
    rw [ascends.answers]
    exact HookedCall.ascendRun recorded active.hooked.method received given
  refine ⟨ys, h, hs, v, ?_⟩
  exact {
    run := answers.trans run
    climbed := {
      leads := retained.calm.further before
      methods := retained.handled.methods.trans entered.tidy.methods
      records := retained.calm.records.trans entered.tidy.records
      kin := by
        rw [retained.handled.classes]
        exact entered.classes ▸ .refl _
      user := retained.calm.user.trans (congrArg (note id) entered.tidy.user)
      quiet := retained.handled.disturbed.trans (entered.quiet quiet) }
    heap := retained.handled.heap
    receiver := retained.receiver
    args := retained.args
    wrap := retained.handled.heap ▸ wrap
    distinct := retained.distinct
    live := retained.live
    -- The pins are newer than any handle that user code owns.
    foreign := fun f mem mine =>
      Nat.not_le_of_lt (later.owned f (retained.calm.user ▸ mine)) (retained.fresh f mem).1 }

namespace Ascending

variable {user : σ}

theorem releases (ascending : Ascending p g depth index id r boxed s user w u o xs ys h hs v)
    (leads : Leads p v.vm.handles.next v y) (answer : Except CallError (Option Ref)) :
    Step.Ends (fun _ => False) (do
      releaseAll (hs ++ [h])
      return answer) y fun result z => result = answer ∧ Handled y z := by
  have live : ∀ f ∈ hs ++ [h], ∃ k, y.vm.Held f k := by
    intro f mem
    obtain ⟨k, held⟩ := ascending.live f mem
    exact ⟨k, leads.held (.inr ⟨held.1, ascending.foreign f mem⟩) held⟩
  refine Step.endsBind.mpr (((releaseAllEnds ascending.distinct live).both
    (Handles.releaseAll (hs ++ [h]) y)).weaken fun _ z ⟨_, handled⟩ => ?_)
  exact ⟨rfl, handled⟩

theorem misses (ascending : Ascending p g depth index id r boxed s user w u o xs ys h hs v)
    (rung : Rung w m shorty c index d info) (missing : v.vm.resolve s m.name m.signature = none) :
    Relays p g depth id r boxed u v (throw (.noSuchMethod (w.vm.classes.name s) m.name m.signature)) fun answer => do
      releaseAll (hs ++ [h])
      return answer where
  run := by
    have known := (rung.same ascending.climbed.methods).known
    rw [← rung.declares.name, ← rung.declares.signature] at missing ⊢
    have missed : (callPinned (call g depth) (.live index) s h hs).run v = _ := callPinnedMissing known missing
    rw [ascending.climbed.kin.name] at missed
    exact ascending.run.trans (Step.bindRun missed)
  back := by
    rintro _ _ ⟨⟩ answer z calm _
    exact ascending.releases (calm.further (.refl _)) answer

theorem returns {values : List Value} {t : Option Ref} {next : Nat} {r' : Except RuntimeError Value}
    (ascending : Ascending p g depth index id r boxed s user w u o xs ys h hs v) (lawful : g.Lawful p)
    (calm : Calm v x) (ready : Ready p x) (run : (call g depth (.live next) t values).run x = .ok (r', y))
    (answer : Except CallError (Option Ref)) (back : Calm y z) :
    Step.Ends (fun _ => False) (do
      releaseAll (hs ++ [h])
      return answer) z fun result z' => result = answer ∧ Handled z z' := by
  have inner := Step.Ends.result (callRespects lawful depth _ _ _ x ready) run
  have since : Leads p v.vm.handles.next v x := calm.further (.refl v)
  exact ascending.releases (back.further (since.trans (inner.widen since.issued))) answer

theorem reaches {next : Nat} {e : Descriptor} {info' : Method}
    (ascending : Ascending p g depth index id r boxed s user w u o xs ys h hs v) (lawful : g.Lawful p)
    (steady : Steady p w) (passing : Passing w r (some receiver) args o xs all)
    (suits : Suits w shorty m.params c receiver args) (dynamic : r.isStatic = false)
    (rung : Rung w m shorty c index d info) (target : Rung w m shorty s next e info')
    (overrides : w.vm.Overrides m s next) (above : w.vm.classes.superclass? c = some s)
    (below : s.index < c.index) :
    RanOut u 1 ((r.interceptor.handler.answer g (call g depth) ⟨id, boxed⟩).run u) ∨
      ∃ x t values, Climbed p user w x ∧ u.vm.heap.Spends 1 x.vm.heap ∧
        Same w.vm.heap x.vm.heap (some receiver) (some t) ∧
        List.Forall₂ (Carried w.vm.heap x.vm.heap) args values ∧
        Relays p g depth id r boxed u x (call g depth (.live next) (some t) values) fun answer => do
          releaseAll (hs ++ [h])
          return answer := by
  have climbed := ascending.climbed
  have there := steady.leads climbed.leads
  obtain ⟨k, q, denotes, classed, inherits⟩ := suits.instance_
  obtain rfl := Heap.denotesOne denotes (passing.receives dynamic)
  have upward : s ∈ w.vm.classes.lineage q := ClassTable.lineageUp above below inherits
  have held : w.vm.bare.heap.Classed k q := classed
  have known := (rung.same climbed.methods).known
  have starts : (v.vm.classes.get? s).any (·.initFails) = false := (climbed.kin.fails s).trans overrides.starts
  have resolved : v.vm.resolve s info.name info.signature = some next := by
    rw [rung.declares.name, rung.declares.signature]
    exact overrides.resolved climbed.methods
  rcases callPinnedRun (call g depth) known resolved (target.same climbed.methods).found target.dynamic
      starts climbed.quiet ascending.receiver ascending.args there.lost
      ⟨q, climbed.leads.bare.classed held, by rwa [climbed.kin.lineage]⟩ with
    ran | ⟨x, t, ts, calm, spends, kin, quiet, now, denote, reached⟩
  · exact Or.inl ⟨ascending.heap ▸ ran.short, ascending.run.trans (Step.bindFault ran.run)⟩
  have after : Climbed p user w x := climbed.further calm kin quiet
  have same : Same w.vm.heap x.vm.heap (some receiver) (some t) := ⟨some k, denotes, now⟩
  have rung' := target.same after.methods
  have boxes := boxesAll passing.passed (ascending.wrap.imp fun _ _ wraps => wraps.changes calm.vm) denote
  have instance_ (c' : ClassId) (declared : e.declaringClass = some c') : x.IsA t c' := by
    cases rung'.declared.symm.trans declared
    refine ⟨k, q, now, after.leads.bare.classed held, ClassTable.lineageAssignable ?_⟩
    rwa [after.kin.lineage]
  obtain ⟨values, carried, checked⟩ := callCheckedRun (call g depth) (.live next) rung'.found rung'.read rung'.known
    quiet suits.kinds (fun _ => ⟨t, rfl, instance_⟩) boxes fun j a b c' at_ declared moved => by
      rw [rung'.params] at declared
      exact (suits.accepted j a c' at_ declared).kept moved after.leads.bare after.kin
  refine Or.inr ⟨x, t, values, after, ascending.heap ▸ spends, same, carried, ?_, fun _ _ run answer _ back _ =>
    ascending.returns lawful calm (steady.leads after.leads).ready run answer back⟩
  rw [target.dynamic] at checked
  refine (ascending.run.trans (Step.bindSame (reached.trans checked))).trans ?_
  rw [bind_assoc]
  rfl

end Ascending

end Level
end Detour
