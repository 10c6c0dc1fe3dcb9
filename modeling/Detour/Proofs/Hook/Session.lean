import Detour.Proofs.Hook.Handling
import Detour.Proofs.Hook.Seeing

/-! The course of a chain of callbacks, as a relation beside the executable chain: one constructor for each
way that a callback or the surrounded call can go on. At every point of it the view denotes what was set
last, and the chain itself adds no fault to those of the code that it runs. -/
namespace Detour

open World

variable {σ : Type} {T : Fault → Prop} {p : Rights σ} {n : Nat} {w v x : World σ}

structure Steady (p : Rights σ) (w : World σ) : Prop where
  ready : Ready p w
  faithful : p.faithful
  lost : w.lost = none
  owned : ∀ h, p.mine w.user h → h.id < w.vm.handles.next

theorem Steady.leads (steady : Steady p w) (leads : Leads p n w x) : Steady p x :=
  ⟨leads.ready steady.ready, steady.faithful, (leads.lost steady.faithful).trans steady.lost,
    leads.owned steady.owned⟩

theorem Steady.tidy (steady : Steady p w) (tidy : Tidy w x) : Steady p x :=
  steady.leads ((Within.start steady.ready).tidy tidy).leads

namespace Chain

inductive Stage
  | befores (hooks ran : List Callback)
  | afters (hooks : List Callback)

section Course

variable (p : Rights σ) (g : Guest σ) (invoke : Invoker σ) (i : HookedCall) (hooks : List Callback)
  (u : World σ)

/-- The points between two callbacks of a chain that began in `u`, each with what the view denotes. -/
inductive Session : Stage → SharedCall → World σ → View → Prop
  | starts {m rs r s w ys y} (method : i.method u = .ok (m, u)) (arguments : i.arguments u = .ok (rs, u))
    (denote : List.Forall₂ u.vm.heap.Denotes rs ys) (receiver : i.receiver u = .ok (r, u))
    (denotes : u.vm.heap.Denotes r y) (made : SharedCall.create m r rs u = .ok (s, w)) :
    Session (.befores hooks []) s w ⟨y, ys, none⟩
  | goesOn {h rest ran s w a t x b} (at_ : Session (.befores (h :: rest) ran) s w a)
    (run : g.before h.id invoke s w = .ok ((.ok (), t), x))
    (edits : Edits p w.vm.handles.next s w a t x b) (open_ : t.settled = false) :
    Session (.befores rest (h :: ran)) t x b
  | decides {h rest ran s w a t x b} (at_ : Session (.befores (h :: rest) ran) s w a)
    (run : g.before h.id invoke s w = .ok ((.ok (), t), x))
    (edits : Edits p w.vm.handles.next s w a t x b) (settled : t.settled = true) :
    Session (.afters (h :: ran)) t x b
  | forgets {h rest ran s w a e t x b t' v} (at_ : Session (.befores (h :: rest) ran) s w a)
    (run : g.before h.id invoke s w = .ok ((.error e, t), x))
    (edits : Edits p w.vm.handles.next s w a t x b) (clear : t.clearOutcome x = .ok (t', v)) :
    Session (.befores rest (h :: ran)) t' v { b with result := none }
  | proceeds {ran s w a r rs outcome x y t v} (at_ : Session (.befores [] ran) s w a)
    (receiver : s.receiverRef w = .ok (r, w)) (args : s.argRefs w = .ok (rs, w))
    (run : (i.proceed invoke r rs).run w = .ok (outcome, x))
    (denotes : ∀ r, outcome = .ok r → x.vm.heap.Denotes r y) (settle : s.settle outcome x = .ok (t, v)) :
    Session (.afters ran) t v (a.settle y outcome)
  | keeps {h rest s w a last v t x b z} (at_ : Session (.afters (h :: rest)) s w a)
    (save : s.saveOutcome w = .ok (last, v)) (run : g.after h.id invoke s v = .ok ((.ok (), t), x))
    (edits : Edits p v.vm.handles.next s v a t x b) (release : releaseHandle last.result x = .ok ((), z)) :
    Session (.afters rest) t z b
  | rollsBack {h rest s w a last v e t x b t' z} (at_ : Session (.afters (h :: rest)) s w a)
    (save : s.saveOutcome w = .ok (last, v)) (run : g.after h.id invoke s v = .ok ((.error e, t), x))
    (edits : Edits p v.vm.handles.next s v a t x b) (back : t.rollBack last x = .ok (t', z)) :
    Session (.afters rest) t' z { b with result := a.result }

inductive Inside : SharedCall → World σ → View → Prop
  | before {h rest ran s w a t x b} (at_ : Session p g invoke i hooks u (.befores (h :: rest) ran) s w a)
    (edits : Edits p w.vm.handles.next s w a t x b) : Inside t x b
  | after {h rest s w a last v t x b} (at_ : Session p g invoke i hooks u (.afters (h :: rest)) s w a)
    (save : s.saveOutcome w = .ok (last, v)) (edits : Edits p v.vm.handles.next s v a t x b) :
    Inside t x b

inductive Blames : Fault → Prop
  | before {h rest ran s w a f} (at_ : Session p g invoke i hooks u (.befores (h :: rest) ran) s w a)
    (run : g.before h.id invoke s w = .error f) : Blames f
  | after {h rest s w a last v f} (at_ : Session p g invoke i hooks u (.afters (h :: rest)) s w a)
    (save : s.saveOutcome w = .ok (last, v)) (run : g.after h.id invoke s v = .error f) : Blames f
  | call {ran s w a r rs f} (at_ : Session p g invoke i hooks u (.befores [] ran) s w a)
    (receiver : s.receiverRef w = .ok (r, w)) (args : s.argRefs w = .ok (rs, w))
    (run : (i.proceed invoke r rs).run w = .error f) : Blames f
  | stale {ran s w a r rs ref x} (at_ : Session p g invoke i hooks u (.befores [] ran) s w a)
    (receiver : s.receiverRef w = .ok (r, w)) (args : s.argRefs w = .ok (rs, w))
    (run : (i.proceed invoke r rs).run w = .ok (.ok (some ref), x)) (gone : x.vm.heap.get? ref = none) :
    Blames (.staleReference ref)

end Course

structure Holds (p : Rights σ) (u : World σ) (s : SharedCall) (w : World σ) (a : View) : Prop where
  shared : Shared p u.vm.handles.next u s.handles w
  sees : s.Sees a w
  apart : Apart p s.handles w

namespace Holds

variable {u : World σ} {s t : SharedCall} {a b : View}

theorem edits {m : Nat} (holds : Holds p u s w a) (since : u.vm.handles.next ≤ m)
    (edits : Edits p m s w a t x b) : Holds p u t x b :=
  ⟨holds.shared.edits since edits, holds.sees.edits edits, holds.apart.edits edits⟩

theorem saved {last : SharedCall.SavedOutcome} (holds : Holds p u s w a) (lost : w.lost = none)
    (save : s.saveOutcome w = .ok (last, v)) :
    Holds p u s v a ∧ Own u.vm.handles.next v last.result ∧ last.failure = s.failure ∧
      Beside p v.vm.handles.next last.result a.result s.handles v := by
  obtain ⟨sees, held, failure, apart, fresh, calm⟩ :=
    (holds.sees.saveOutcome (T := fun _ => True) lost).result save
  obtain ⟨shared, own⟩ := holds.shared.saveOutcome.result save
  refine ⟨⟨shared, sees, holds.apart.served calm⟩, own, failure, held, fun mine => ?_, fresh.2,
    Nat.le_refl _, apart⟩
  exact Nat.not_le_of_lt (holds.apart.owned _ (calm.user ▸ mine)) fresh.1

theorem cleared (holds : Holds p u s w a) (clear : s.clearOutcome w = .ok (t, x)) :
    Holds p u t x { a with result := none } where
  shared := (SharedCall.clearOutcomeSwaps Shared.swaps holds.shared).result clear
  sees := ((holds.sees.clearOutcome (T := fun _ => True)).result clear).1
  apart := (SharedCall.clearOutcomeSwaps Apart.swaps holds.apart).result clear

theorem called (holds : Holds p u s w a) (leads : Leads p w.vm.handles.next w x) : Holds p u s x a := by
  have issued : ∀ h ∈ s.handles, h.id < w.vm.handles.next := fun h mem => (holds.shared.own h mem).issued
  refine ⟨⟨holds.shared.within.further holds.shared.within.next leads, fun h mem =>
    (holds.shared.own h mem).leads leads⟩, ?_, holds.apart.leads issued leads⟩
  exact holds.sees.imp fun h mem o held => leads.held (.inr ⟨issued h mem, holds.apart.foreign h mem⟩) held

theorem settled {outcome : Except CallError (Option Ref)} {y : Option Nat} (holds : Holds p u s w a)
    (denotes : ∀ r, outcome = .ok r → w.vm.heap.Denotes r y) (settle : s.settle outcome w = .ok (t, x)) :
    Holds p u t x (a.settle y outcome) where
  shared := (SharedCall.settleSwaps Shared.swaps holds.shared outcome).result settle
  sees := (holds.sees.settle (T := fun _ => True) outcome denotes).result settle
  apart := (SharedCall.settleSwaps Apart.swaps holds.apart outcome).result settle

theorem released {m : Nat} {h : Handle} {o : Option Nat} (holds : Holds p u s w a)
    (own : Own u.vm.handles.next w h) (beside : Beside p m h o s.handles w)
    (release : releaseHandle h w = .ok ((), x)) : Holds p u s x a := by
  have shared := (holds.shared.release own).result release
  obtain rfl := (releaseHeldEnds (T := fun _ => True) beside.held).result release
  have served : Served (· = h) (fun _ => True) w (w.unpinned h) := .step (.released rfl)
  exact ⟨shared, holds.sees.released beside.apart, holds.apart.served served⟩

theorem rolledBack {m : Nat} {last : SharedCall.SavedOutcome} {o : Option Nat} (holds : Holds p u s w a)
    (own : Own u.vm.handles.next w last.result) (beside : Beside p m last.result o s.handles w)
    (back : s.rollBack last w = .ok (t, x)) : Holds p u t x { a with result := o } := by
  have shared := (holds.shared.rollBack own).result back
  have sees := (holds.sees.rollBack (T := fun _ => True) beside.held beside.apart).result back
  obtain ⟨rfl, rfl⟩ := (SharedCall.Sees.rollBackEnds (T := fun _ => True) holds.sees.result).result back
  refine ⟨shared, sees, holds.apart.owned, fun h mem => ?_⟩
  rcases (SharedCall.resultAmong mem : h ∈ s.handles ∨ h = last.result) with before | rfl
  · exact holds.apart.foreign h before
  · exact beside.foreign

end Holds

section Points

variable {g : Guest σ} {invoke : Invoker σ} {i : HookedCall} {hooks : List Callback} {u : World σ}

theorem Session.holds {stage : Stage} {s : SharedCall} {a : View} (steady : Steady p u)
    (respects : Invoker.Respects p invoke) (at_ : Session p g invoke i hooks u stage s w a) :
    Holds p u s w a := by
  have lost {s w a} (holds : Holds p u s w a) : w.lost = none :=
    (steady.leads holds.shared.within.leads).lost
  induction at_ with
  | starts _ _ denote _ denotes made =>
    obtain ⟨sees, _, _, calm, fresh⟩ :=
      (SharedCall.Sees.create (T := fun _ => True) _ denotes denote).result made
    refine ⟨(Shared.create (.start steady.ready) _ _ _).result made, sees, ?_⟩
    exact Apart.fresh ⟨steady.owned, by simp⟩ calm.user calm.vm.issued fun h mem => (fresh h mem).1
  | goesOn _ _ edits _ ih => exact ih.edits ih.shared.within.next edits
  | decides _ _ edits _ ih => exact ih.edits ih.shared.within.next edits
  | forgets _ _ edits clear ih => exact (ih.edits ih.shared.within.next edits).cleared clear
  | proceeds _ _ _ run denotes settle ih =>
    have leads := Step.Ends.result (i.proceedRespects respects _ _ _ ih.shared.within.still) run
    exact (ih.called leads).settled denotes settle
  | keeps _ save _ edits release ih =>
    obtain ⟨holds, own, _, beside⟩ := ih.saved (lost ih) save
    have own := Shared.editsOwn edits own.issued own
    exact (holds.edits holds.shared.within.next edits).released own (beside.edits edits) release
  | rollsBack _ save _ edits back ih =>
    obtain ⟨holds, own, _, beside⟩ := ih.saved (lost ih) save
    have own := Shared.editsOwn edits own.issued own
    exact (holds.edits holds.shared.within.next edits).rolledBack own (beside.edits edits) back

theorem Inside.gives {s : SharedCall} {a : View} (steady : Steady p u)
    (respects : Invoker.Respects p invoke) (inside : Inside p g invoke i hooks u s w a) : s.Gives a w := by
  have gives {s w a} (holds : Holds p u s w a) : s.Gives a w :=
    holds.sees.gives (steady.leads holds.shared.within.leads).lost
  cases inside with
  | before at_ edits =>
    have holds := at_.holds steady respects
    exact gives (holds.edits holds.shared.within.next edits)
  | after at_ save edits =>
    have before := at_.holds steady respects
    have holds := (before.saved (steady.leads before.shared.within.leads).lost save).1
    exact gives (holds.edits holds.shared.within.next edits)

variable {s : SharedCall} {a : View}

theorem runBeforesEnds (steady : Steady p u) (lawful : g.Lawful p) (respects : Invoker.Respects p invoke)
    (left ran : List Callback) (at_ : Session p g invoke i hooks u (.befores left ran) s w a)
    (open_ : s.settled = false) :
    Step.Ends (Blames p g invoke i hooks u) (runBefores g invoke left ran s) w fun r x => ∃ b,
      (r.2.settled = true ∧ Session p g invoke i hooks u (.afters r.1) r.2 x b) ∨
      (r.2.settled = false ∧ Session p g invoke i hooks u (.befores [] r.1) r.2 x b) := by
  induction left generalizing ran s w a with
  | nil => exact ⟨a, Or.inr ⟨open_, at_⟩⟩
  | cons h left ih =>
    have holds := at_.holds steady respects
    have law := lawful.before invoke respects h.id s w a holds.shared.within.still
    unfold runBefores
    refine Step.endsBind.mpr ((law.traced fun f run => .before at_ run).weaken fun r x ends => ?_)
    obtain ⟨run, b, edits⟩ := ends
    have after := holds.edits holds.shared.within.next edits
    obtain ⟨outcome, t⟩ := r
    cases outcome with
    | error e =>
      refine Step.endsBind.mpr (after.sees.clearOutcome.certain.weaken fun t' v cleared => ?_)
      obtain ⟨clear, _, open_⟩ := cleared
      exact ih (h :: ran) (.forgets at_ run edits clear) open_
    | ok =>
      dsimp only
      split
      next settled => exact ⟨b, Or.inl ⟨settled, .decides at_ run edits settled⟩⟩
      next still =>
        have open_ : t.settled = false := by simpa using still
        exact ih (h :: ran) (.goesOn at_ run edits open_) open_

theorem runAftersEnds (steady : Steady p u) (lawful : g.Lawful p) (respects : Invoker.Respects p invoke)
    (left : List Callback) (at_ : Session p g invoke i hooks u (.afters left) s w a) :
    Step.Ends (Blames p g invoke i hooks u) (runAfters g invoke left s) w fun t x =>
      ∃ b, Session p g invoke i hooks u (.afters []) t x b := by
  induction left generalizing s w a with
  | nil => exact ⟨a, at_⟩
  | cons h left ih =>
    have holds := at_.holds steady respects
    have lost := (steady.leads holds.shared.within.leads).lost
    unfold runAfters
    refine Step.endsBind.mpr ((holds.sees.saveOutcome lost).certain.weaken fun last v ends => ?_)
    have save := ends.1
    obtain ⟨saved, _, _, beside⟩ := holds.saved lost save
    have law := lawful.after invoke respects h.id s v a saved.shared.within.still
    refine Step.endsBind.mpr ((law.traced fun f run => .after at_ save run).weaken fun r x ends => ?_)
    obtain ⟨run, b, edits⟩ := ends
    have beside := beside.edits edits
    have after := saved.edits saved.shared.within.next edits
    obtain ⟨outcome, t⟩ := r
    cases outcome with
    | error e =>
      refine Step.endsBind.mpr ((after.sees.rollBack beside.held beside.apart).certain.weaken
        fun t' z back => ?_)
      exact ih (.rollsBack at_ save run edits back.1)
    | ok =>
      refine Step.endsBind.mpr ((releaseHeldEnds beside.held).certain.weaken fun _ z release => ?_)
      exact ih (.keeps at_ save run edits release.1)

theorem proceedEnds {ran : List Callback} (steady : Steady p u) (respects : Invoker.Respects p invoke)
    (at_ : Session p g invoke i hooks u (.befores [] ran) s w a) :
    Step.Ends (Blames p g invoke i hooks u) (do
      let receiver ← s.receiverRef
      let args ← s.argRefs
      let outcome ← (i.proceed invoke receiver args).attempt
      s.settle outcome) w fun t x => ∃ b, Session p g invoke i hooks u (.afters ran) t x b := by
  have holds := at_.holds steady respects
  have gives := holds.sees.gives (steady.leads holds.shared.within.leads).lost
  obtain ⟨r, receiver, _⟩ := gives.receiver
  obtain ⟨rs, args, _⟩ := gives.args
  refine Step.endsBind.mpr ((Step.endsOk receiver).mpr ?_)
  refine Step.endsBind.mpr ((Step.endsOk args).mpr ?_)
  have law := i.proceedRespects respects r rs w holds.shared.within.still
  refine Step.endsBind.mpr ((Step.Ends.traced law fun f run => .call at_ receiver args run).weaken
    fun outcome x ⟨run, leads⟩ => ?_)
  have called := holds.called leads
  have settles {y : Option Nat} (denotes : ∀ r, outcome = .ok r → x.vm.heap.Denotes r y) :
      Step.Ends (Blames p g invoke i hooks u) (s.settle outcome) x fun t z =>
        ∃ b, Session p g invoke i hooks u (.afters ran) t z b :=
    (called.sees.settle outcome denotes).certain.weaken fun t z ⟨settle, _⟩ =>
      ⟨_, .proceeds at_ receiver args run denotes settle⟩
  rcases outcome with e | _ | ref
  · exact settles (y := none) (by simp)
  · exact settles (y := none) (by simp)
  · cases found : x.vm.heap.get? ref with
    | some o =>
      obtain ⟨k, denotes, _⟩ := Heap.getDenotes found
      refine settles (y := some k) fun r same => ?_
      cases same
      exact denotes
    | none =>
      exact Step.endsBind.mpr (createStaleEnds found (.stale at_ receiver args run found))

theorem aroundEnds (steady : Steady p u) (lawful : g.Lawful p) (respects : Invoker.Respects p invoke)
    (at_ : Session p g invoke i hooks u (.befores hooks []) s w a) (open_ : s.settled = false) :
    Step.Ends (Blames p g invoke i hooks u) (around g invoke i hooks s) w fun t x =>
      ∃ b, Session p g invoke i hooks u (.afters []) t x b := by
  unfold around
  refine Step.endsBind.mpr ((runBeforesEnds steady lawful respects hooks [] at_ open_).weaken
    fun r x ⟨b, points⟩ => ?_)
  obtain ⟨ran, t⟩ := r
  rcases points with ⟨settled, at_⟩ | ⟨open_, at_⟩
  · have settled : t.settled = true := settled
    simp only [settled, if_true]
    exact runAftersEnds steady lawful respects ran at_
  · have open_ : t.settled = false := open_
    simp only [open_, Bool.false_eq_true, if_false]
    simp only [← bind_assoc]
    refine Step.endsBind.mpr ?_
    simp only [bind_assoc]
    exact (proceedEnds steady respects at_).weaken fun t x ⟨b, at_⟩ =>
      runAftersEnds steady lawful respects ran at_

def Answers (p : Rights σ) (g : Guest σ) (invoke : Invoker σ) (i : HookedCall) (hooks : List Callback)
    (u : World σ) (outcome : Except CallError (Option Ref)) (z : World σ) : Prop :=
  ∃ s x a, Session p g invoke i hooks u (.afters []) s x a ∧
    (∀ e, s.failure = some e → outcome = .error e) ∧
    (s.failure = none → ∃ r, outcome = .ok r ∧ z.vm.heap.Denotes r a.result)

theorem answerCourse {m : MethodAddress} {c : Nat} {chain : Chain} {r : Option Ref} {y : Option Nat}
    {rs : List (Option Ref)} {ys : List (Option Nat)} (steady : Steady p u) (lawful : g.Lawful p)
    (respects : Invoker.Respects p invoke) (method : i.method u = .ok (m, u))
    (found : u.chains[c]? = some chain) (listed : chain.callbacks m = hooks) (some_ : hooks ≠ [])
    (arguments : i.arguments u = .ok (rs, u)) (denote : List.Forall₂ u.vm.heap.Denotes rs ys)
    (receiver : i.receiver u = .ok (r, u)) (denotes : u.vm.heap.Denotes r y) :
    Action.Ends (Blames p g invoke i hooks u) (answer g invoke c i) u fun outcome z =>
      ∃ s x a, Session p g invoke i hooks u (.afters []) s x a ∧ Handled x z ∧
        (∀ e, s.failure = some e → outcome = .error e) ∧
        (s.failure = none → ∃ r, outcome = .ok r ∧ x.vm.heap.Denotes r a.result) := by
  unfold answer
  refine Action.endsLiftBind.mpr ((Step.endsOk method).mpr ?_)
  refine Action.endsGetBind.mpr ?_
  refine Action.endsLiftBind.mpr (Step.endsRequire.mpr ⟨fun chain' again => ?_, by simp [found]⟩)
  cases found.symm.trans again
  rw [listed]
  split
  next => exact (some_ rfl).elim
  next =>
    refine Action.endsLiftBind.mpr ((Step.endsOk arguments).mpr ?_)
    refine Action.endsLiftBind.mpr ((Step.endsOk receiver).mpr ?_)
    have makes := SharedCall.Sees.create (T := fun _ => False) m denotes denote
    refine Action.endsLiftBind.mpr (makes.certain.weaken fun s w ⟨made, _, open_, _⟩ => ?_)
    have at_ : Session p g invoke i hooks u (.befores hooks []) s w ⟨y, ys, none⟩ :=
      .starts method arguments denote receiver denotes made
    refine Action.endsLiftBind.mpr ((aroundEnds steady lawful respects at_ open_).weaken
      fun t x ⟨b, at_⟩ => ?_)
    have holds := at_.holds steady respects
    have ends : Step.Ends (Blames p g invoke i hooks u) t.outcome x fun outcome z => z = x ∧
        (∀ e, t.failure = some e → outcome = .error e) ∧
        (t.failure = none → ∃ r, outcome = .ok r ∧ x.vm.heap.Denotes r b.result) := by
      unfold SharedCall.outcome
      cases t.failure with
      | some e => exact ⟨rfl, by simp, by simp⟩
      | none =>
        refine Step.endsBind.mpr ((resolveEnds holds.sees.result
          (steady.leads holds.shared.within.leads).lost).weaken fun r z ⟨same, denotes⟩ => ?_)
        exact ⟨same, by simp, fun _ => ⟨r, rfl, denotes⟩⟩
    refine Action.endsLiftBind.mpr (ends.weaken fun outcome z ⟨same, result⟩ => ?_)
    subst same
    refine Action.endsLiftBind.mpr (((releaseAllEnds holds.sees.distinct holds.sees.live).both
      (Handles.releaseAll t.handles z)).weaken fun _ v ⟨_, handled⟩ => Action.endsOfExcept.mpr ?_)
    exact ⟨t, z, b, at_, handled, result⟩

end Points
end Chain
end Detour
