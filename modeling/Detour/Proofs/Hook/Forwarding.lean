import Detour.Proofs.Hook.Session

/-! Handlers that pass a call on: user code that does nothing but call the unhooked implementation, and
chains whose callbacks do nothing. Around the one call that they make, only handles come and go. -/
namespace Detour

open World

variable {σ : Type} {p : Rights σ} {w v x y : World σ}

def HookedCall.forward (invoke : Invoker σ) (i : HookedCall) : Act σ CallError (Option Ref) := do
  let receiver ← lift i.receiver
  let args ← lift i.arguments
  i.proceed invoke receiver args

def Callback.Idle (g : Guest σ) (h : Callback) : Prop :=
  ∀ invoke s, g.before h.id invoke s = pure (.ok (), s) ∧ g.after h.id invoke s = pure (.ok (), s)

def Handler.Forwards (g : Guest σ) (w : World σ) (m : MethodAddress) : Handler → Prop
  | .plain id => ∀ invoke i, g.handler id invoke i = i.forward invoke
  | .chain c => ∃ chain, w.chains[c]? = some chain ∧ ∀ h ∈ chain.callbacks m, h.Idle g

namespace Chain

variable {T : Fault → Prop} {g : Guest σ} {invoke : Invoker σ} {s : SharedCall} {a : View}

theorem runBeforesIdle {left : List Callback} (ran : List Callback) (idle : ∀ h ∈ left, h.Idle g)
    (open_ : s.settled = false) :
    runBefores g invoke left ran s w = .ok ((left.reverse ++ ran, s), w) := by
  induction left generalizing ran with
  | nil => rfl
  | cons h left ih =>
    have rest := ih (h :: ran) fun k mem => idle k (List.mem_cons_of_mem _ mem)
    unfold runBefores
    rw [(idle h (List.mem_cons_self ..) invoke s).1, pure_bind]
    simp only [open_, Bool.false_eq_true, if_false, List.reverse_cons, List.append_assoc, List.singleton_append]
    exact rest

theorem runAftersIdle {left : List Callback} (idle : ∀ h ∈ left, h.Idle g) (sees : s.Sees a w)
    (faithful : w.lost = none) :
    Step.Ends T (runAfters g invoke left s) w fun t x => t = s ∧ Handled w x ∧ s.Sees a x ∧ x.lost = none := by
  induction left generalizing w with
  | nil => exact ⟨rfl, .refl w, sees, faithful⟩
  | cons h left ih =>
    unfold runAfters
    refine Step.endsBind.mpr (((sees.saveOutcome faithful).both (Handles.saveOutcome s w)).weaken
      fun last x ends => ?_)
    obtain ⟨⟨sees, held, _, apart, _, calm⟩, handled⟩ := ends
    rw [(idle h (List.mem_cons_self ..) invoke s).2, pure_bind]
    refine Step.endsBind.mpr ((releaseHeldEnds held).weaken fun _ y same => ?_)
    subst same
    have released : Handled x (x.unpinned last.result) := rfl
    have rest := ih (fun k mem => idle k (List.mem_cons_of_mem _ mem)) (sees.released apart)
      (calm.lost.trans faithful)
    refine rest.weaken fun t z ends => ?_
    obtain ⟨same, later, sees, lost⟩ := ends
    exact ⟨same, (handled.trans released).trans later, sees, lost⟩

def close (g : Guest σ) (invoke : Invoker σ) (ran : List Callback) (s : SharedCall)
    (outcome : Except CallError (Option Ref)) : Machine σ (Except CallError (Option Ref)) := do
  let s ← s.settle outcome
  let s ← runAfters g invoke ran s
  let outcome ← s.outcome
  s.release
  return outcome

theorem closeSettled {ran : List Callback} {outcome : Except CallError (Option Ref)}
    (idle : ∀ h ∈ ran, h.Idle g) (sees : s.Sees a w) (faithful : w.lost = none)
    (failed : ∀ e, outcome = .error e → s.failure = some e)
    (passed : ∀ obj, outcome = .ok obj → s.failure = none ∧ w.vm.heap.Denotes obj a.result) :
    Step.Ends T (do
      let s ← runAfters g invoke ran s
      let outcome ← s.outcome
      s.release
      return outcome) w fun result x => result = outcome ∧ Handled w x := by
  refine Step.endsBind.mpr ((runAftersIdle idle sees faithful).weaken
    fun t x ⟨same, handled, sees, faithful⟩ => ?_)
  subst same
  have ends : Step.Ends T t.outcome x fun result y => y = x ∧ result = outcome := by
    unfold SharedCall.outcome
    cases outcome with
    | error e =>
      rw [failed e rfl]
      exact ⟨rfl, rfl⟩
    | ok obj =>
      obtain ⟨clear, denotes⟩ := passed obj rfl
      rw [clear]
      refine Step.endsBind.mpr ((resolveEnds sees.result faithful).weaken fun r y ⟨same, now⟩ => ?_)
      rw [handled.heap] at now
      exact ⟨same, congrArg _ (Heap.denotesSame now denotes)⟩
  refine Step.endsBind.mpr (ends.weaken fun result y ⟨same, is⟩ => ?_)
  subst same
  refine Step.endsBind.mpr (((releaseAllEnds sees.distinct sees.live).both
    (Handles.releaseAll t.handles y)).weaken fun _ z ⟨_, released⟩ => ?_)
  exact ⟨is, handled.trans released⟩

theorem closeEnds {ran : List Callback} {outcome : Except CallError (Option Ref)}
    (idle : ∀ h ∈ ran, h.Idle g) (sees : s.Sees a w) (faithful : w.lost = none) (open_ : s.failure = none)
    (live : ∀ obj, outcome = .ok obj → ∃ k, w.vm.heap.Denotes obj k) :
    Step.Ends T (close g invoke ran s outcome) w fun result x => result = outcome ∧ Handled w x := by
  cases outcome with
  | error e =>
    exact closeSettled idle (sees.mark (some e) s.settled) faithful (fun _ same => by cases same; rfl) (by simp)
  | ok obj =>
    obtain ⟨k, denotes⟩ := live obj rfl
    refine Step.endsBind.mpr (((sees.withResult denotes).both (Handles.withResult s obj w)).weaken
      fun t x ⟨⟨sees, same, heap⟩, handled⟩ => ?_)
    have lost : x.lost = none := by
      rw [handled]
      exact faithful
    have passed : ∀ o, Except.ok obj = (.ok o : Except CallError (Option Ref)) →
        t.failure = none ∧ x.vm.heap.Denotes o k := by
      rintro _ ⟨⟩
      rw [same]
      exact ⟨open_, heap ▸ denotes⟩
    refine (closeSettled idle sees lost (by simp) passed).weaken fun result y ⟨is, later⟩ => ?_
    exact ⟨is, handled.trans later⟩

end Chain

structure Forwarded (p : Rights σ) (answer : Act σ CallError (Option Ref)) (invoke : Invoker σ)
    (m : MethodAddress) (o : Option Nat) (os : List (Option Nat)) (u : World σ) (r : Option Ref)
    (rs : List (Option Ref)) (v : World σ)
    (rest : Except CallError (Option Ref) → Machine σ (Except CallError (Option Ref))) : Prop where
  run : answer.run u = (do
    let outcome ← (callUnhooked invoke m r rs).attempt
    rest outcome) v
  handled : Handled u v
  calm : Calm u v
  receiver : v.vm.heap.Denotes r o
  args : List.Forall₂ v.vm.heap.Denotes rs os
  back : ∀ outcome y, Leads p v.vm.handles.next v y → y.lost = none →
    (∀ obj, outcome = .ok obj → ∃ k, y.vm.heap.Denotes obj k) →
    Step.Ends (fun _ => False) (rest outcome) y fun result z => result = outcome ∧ Handled y z

section Forward

variable {g : Guest σ} {invoke : Invoker σ} {i : HookedCall} {k : InstalledHook} {m : MethodAddress}
  {u : World σ} {r : Option Ref} {rs : List (Option Ref)} {o : Option Nat} {os : List (Option Nat)}

theorem HookedCall.methodRun (recorded : w.records[i.record]? = some k) (owner : k.method = m) :
    i.method w = .ok (m, w) := by
  unfold method hook
  rw [Step.bindRun (recordRun recorded), owner]
  rfl

theorem HookedCall.proceedRun (recorded : w.records[i.record]? = some k) (owner : k.method = m) :
    (i.proceed invoke r rs).run w = (callUnhooked invoke m r rs).run w := by
  unfold proceed
  rw [Action.liftBindRun (methodRun recorded owner)]

theorem forwardPlain (recorded : u.records[i.record]? = some k) (owner : k.method = m)
    (receiver : i.receiver u = .ok (r, u))
    (denotes : u.vm.heap.Denotes r o) (arguments : i.arguments u = .ok (rs, u))
    (denote : List.Forall₂ u.vm.heap.Denotes rs os) :
    Forwarded p (i.forward invoke) invoke m o os u r rs u pure where
  run := by
    unfold HookedCall.forward
    rw [Action.liftBindRun receiver, Action.liftBindRun arguments, HookedCall.proceedRun recorded owner, bind_pure]
    rfl
  handled := .refl u
  calm := .refl u
  receiver := denotes
  args := denote
  back outcome y _ _ _ := ⟨rfl, .refl y⟩

section Answer

variable {c : Nat} {chain : Chain}

theorem answerBare (recorded : u.records[i.record]? = some k) (owner : k.method = m)
    (found : u.chains[c]? = some chain) (none_ : chain.callbacks m = []) :
    (Chain.answer g invoke c i).run u = (i.forward invoke).run u := by
  unfold Chain.answer
  rw [Action.liftBindRun (HookedCall.methodRun recorded owner), Action.getBindRun,
    Action.liftBindRun (Step.requireRun found), none_]
  rfl

theorem answerAround {s : SharedCall} (recorded : u.records[i.record]? = some k) (owner : k.method = m)
    (found : u.chains[c]? = some chain) (some_ : chain.callbacks m ≠ []) (receiver : i.receiver u = .ok (r, u))
    (arguments : i.arguments u = .ok (rs, u)) (made : SharedCall.create m r rs u = .ok (s, v)) :
    (Chain.answer g invoke c i).run u = (do
      let t ← Chain.around g invoke i (chain.callbacks m) s
      let outcome ← t.outcome
      t.release
      return outcome) v := by
  unfold Chain.answer
  rw [Action.liftBindRun (HookedCall.methodRun recorded owner), Action.getBindRun,
    Action.liftBindRun (Step.requireRun found)]
  split
  next none_ => exact (some_ none_).elim
  next =>
    rw [Action.liftBindRun arguments, Action.liftBindRun receiver, Action.liftBindRun made, Action.runLift]
    refine congrFun (bind_congr fun t => ?_) v
    rw [Action.runLift]
    refine bind_congr fun outcome => ?_
    rw [Action.runLift]
    refine bind_congr fun _ => ?_
    cases outcome <;> rfl

theorem aroundIdle {hooks : List Callback} {s : SharedCall} (recorded : v.records[i.record]? = some k)
    (owner : k.method = m) (idle : ∀ h ∈ hooks, h.Idle g) (open_ : s.settled = false)
    (receiver : s.receiverRef v = .ok (r, v)) (args : s.argRefs v = .ok (rs, v)) :
    (do
      let t ← Chain.around g invoke i hooks s
      let outcome ← t.outcome
      t.release
      return outcome) v = (do
        let outcome ← (callUnhooked invoke m r rs).attempt
        Chain.close g invoke hooks.reverse s outcome) v := by
  have befores : Chain.runBefores g invoke hooks [] s v = _ := Chain.runBeforesIdle [] idle open_
  unfold Chain.around
  rw [bind_assoc, Step.bindRun befores]
  simp only [open_, Bool.false_eq_true, if_false]
  rw [bind_assoc, Step.bindRun receiver, bind_assoc, Step.bindRun args, bind_assoc]
  refine (Step.bindSame (HookedCall.proceedRun recorded owner)).trans ?_
  refine congrFun (bind_congr fun outcome => ?_) v
  unfold Chain.close
  rw [bind_assoc, List.append_nil]

theorem forwardAround (steady : Steady p u)
    (recorded : u.records[i.record]? = some k) (owner : k.method = m) (receiver : i.receiver u = .ok (r, u))
    (denotes : u.vm.heap.Denotes r o)
    (arguments : i.arguments u = .ok (rs, u)) (denote : List.Forall₂ u.vm.heap.Denotes rs os)
    (found : u.chains[c]? = some chain) (idle : ∀ h ∈ chain.callbacks m, h.Idle g)
    (some_ : chain.callbacks m ≠ []) :
    ∃ r' rs' v rest, Forwarded p (Chain.answer g invoke c i) invoke m o os u r' rs' v rest := by
  have creates := (SharedCall.Sees.create (T := fun _ => False) m denotes denote).both
    (Handles.createView m r rs u)
  obtain ⟨s, v, made, ⟨sees, open_, clear, calm, fresh⟩, handled⟩ := creates.sure
  have gives := sees.gives (calm.lost.trans steady.lost)
  obtain ⟨r', received, there⟩ := gives.receiver
  obtain ⟨rs', given, all⟩ := gives.args
  refine ⟨r', rs', v, Chain.close g invoke (chain.callbacks m).reverse s, ?_, handled, calm, there, all,
    fun outcome y leads lost live => ?_⟩
  · have later : v.records[i.record]? = some k := by rw [calm.records, recorded]
    exact (answerAround recorded owner found some_ receiver arguments made).trans
      (aroundIdle later owner idle open_ received given)
  · have foreign : ∀ h ∈ s.handles, ¬ p.mine v.user h := fun h mem mine =>
      Nat.not_le_of_lt (steady.owned h (calm.user ▸ mine)) (fresh h mem).1
    have sees := sees.imp fun h mem k held => leads.held (.inr ⟨held.1, foreign h mem⟩) held
    exact Chain.closeEnds (fun h mem => idle h (List.mem_reverse.mp mem)) sees lost clear live

end Answer

variable (g invoke i) in
theorem forwarded {h : Handler} (steady : Steady p u) (forwards : h.Forwards g u m)
    (recorded : u.records[i.record]? = some k) (owner : k.method = m) (receiver : i.receiver u = .ok (r, u))
    (denotes : u.vm.heap.Denotes r o) (arguments : i.arguments u = .ok (rs, u))
    (denote : List.Forall₂ u.vm.heap.Denotes rs os) :
    ∃ r' rs' v rest, Forwarded p (h.answer g invoke i) invoke m o os u r' rs' v rest := by
  have plain : Forwarded p (i.forward invoke) invoke m o os u r rs u pure :=
    forwardPlain recorded owner receiver denotes arguments denote
  cases h with
  | plain id =>
    refine ⟨r, rs, u, pure, ?_⟩
    change Forwarded p (g.handler id invoke i) invoke m o os u r rs u pure
    rw [forwards invoke i]
    exact plain
  | chain c =>
    obtain ⟨chain, found, idle⟩ := forwards
    rcases eq_or_ne (chain.callbacks m) [] with none_ | some_
    · exact ⟨r, rs, u, pure, { plain with run := (answerBare recorded owner found none_).trans plain.run }⟩
    · exact forwardAround steady recorded owner receiver denotes arguments denote found idle some_

end Forward
end Detour
