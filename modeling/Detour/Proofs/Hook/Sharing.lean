import Detour.Proofs.Hook.Lawful

/-! Callbacks around a hooked call. The handles of the view that they share are the layer's own: each
setting makes one and releases the one before, and what a callback runs leaves the others alone. -/
namespace Detour

open World

variable {σ : Type} {p : Rights σ} {n : Nat} {w₀ w x : World σ}

def World.swapped (w : World σ) (old : Handle) (r : Option Ref) : World σ :=
  (w.pinned .localHandle r).unpinned old

theorem World.swappedServed (w : World σ) (old : Handle) (r : Option Ref) :
    Served (· = old) (fun _ => True) w (w.swapped old r) :=
  (pinnedCalm .localHandle r).served.trans (.step (.released rfl))

namespace SharedCall

variable {s : SharedCall} {T : Fault → Prop} {r : Option Ref} {g h : Handle}

theorem handlesOf : g ∈ s.handles ↔ (g = s.receiver ∨ g ∈ s.args) ∨ g = s.result := by
  simp [handles, or_assoc]

theorem receiverAmong (mem : g ∈ ({ s with receiver := h } : SharedCall).handles) : g ∈ s.handles ∨ g = h := by
  rw [handlesOf] at mem ⊢
  rcases mem with (same | arg) | result
  · exact Or.inr same
  · exact Or.inl (Or.inl (Or.inr arg))
  · exact Or.inl (Or.inr result)

theorem argumentAmong {index : Nat}
    (mem : g ∈ ({ s with args := s.args.set index h } : SharedCall).handles) : g ∈ s.handles ∨ g = h := by
  rw [handlesOf] at mem ⊢
  rcases mem with (receiver | arg) | result
  · exact Or.inl (Or.inl (Or.inl receiver))
  · exact (List.mem_or_eq_of_mem_set arg).imp_left fun before => Or.inl (Or.inr before)
  · exact Or.inl (Or.inr result)

theorem resultAmong (mem : g ∈ ({ s with result := h } : SharedCall).handles) : g ∈ s.handles ∨ g = h := by
  rw [handlesOf] at mem ⊢
  exact mem.imp_left Or.inl

theorem swapEnds {old : Handle}
    (stale : ∀ ref, r = some ref → w.vm.heap.get? ref = none → T (.staleReference ref))
    (released : (w.pinned .localHandle r).vm.handles.find? old = none → T (.releasedHandle old.id)) :
    Step.Ends T (createLocal r) w fun h x =>
      Step.Ends T (releaseHandle old) x fun _ y => h = ⟨w.vm.handles.next⟩ ∧ y = w.swapped old r := by
  refine (createLocalEnds stale).weaken fun h x ⟨new, same⟩ => ?_
  subst same
  exact (releaseHandleEnds released).weaken fun _ y same => ⟨new, same⟩

theorem withResultEnds
    (stale : ∀ ref, r = some ref → w.vm.heap.get? ref = none → T (.staleReference ref))
    (released : (w.pinned .localHandle r).vm.handles.find? s.result = none →
      T (.releasedHandle s.result.id)) :
    Step.Ends T (s.withResult r) w fun t x =>
      t = { s with result := ⟨w.vm.handles.next⟩ } ∧ x = w.swapped s.result r := by
  refine Step.endsBind.mpr ((swapEnds stale released).weaken fun h x rest => ?_)
  refine Step.endsBind.mpr (rest.weaken fun _ y ⟨new, same⟩ => ?_)
  subst new
  exact ⟨rfl, same⟩

theorem replaceReceiverEnds
    (stale : ∀ ref, r = some ref → w.vm.heap.get? ref = none → T (.staleReference ref))
    (released : (w.pinned .localHandle r).vm.handles.find? s.receiver = none →
      T (.releasedHandle s.receiver.id)) :
    Step.Ends T (s.replaceReceiver r) w fun t x =>
      t = { s with receiver := ⟨w.vm.handles.next⟩ } ∧ x = w.swapped s.receiver r := by
  refine Step.endsBind.mpr ((swapEnds stale released).weaken fun h x rest => ?_)
  refine Step.endsBind.mpr (rest.weaken fun _ y ⟨new, same⟩ => ?_)
  subst new
  exact ⟨rfl, same⟩

theorem replaceArgumentPast {index : Nat} (past : s.args[index]? = none) :
    (s.replaceArgument index r : Machine σ SharedCall) = pure s := by
  unfold replaceArgument
  rw [past]

theorem replaceArgumentEnds {index : Nat} {old : Handle} (at_ : s.args[index]? = some old)
    (stale : ∀ ref, r = some ref → w.vm.heap.get? ref = none → T (.staleReference ref))
    (released : (w.pinned .localHandle r).vm.handles.find? old = none → T (.releasedHandle old.id)) :
    Step.Ends T (s.replaceArgument index r) w fun t x =>
      t = { s with args := s.args.set index ⟨w.vm.handles.next⟩ } ∧ x = w.swapped old r := by
  unfold replaceArgument
  rw [at_]
  refine Step.endsBind.mpr ((swapEnds stale released).weaken fun h x rest => ?_)
  refine Step.endsBind.mpr (rest.weaken fun _ y ⟨new, same⟩ => ?_)
  subst new
  exact ⟨rfl, same⟩

section Settings

variable {P : List Handle → World σ → Prop}

def Swaps (P : List Handle → World σ → Prop) : Prop :=
  ∀ hs w old r hs', P hs w → old ∈ hs → (∀ g ∈ hs', g ∈ hs ∨ g = ⟨w.vm.handles.next⟩) →
    P hs' (w.swapped old r)

theorem withResultSwaps (swaps : Swaps P) (holds : P s.handles w) (r : Option Ref) :
    Step.Ends (fun _ => True) (s.withResult r) w fun t x => P t.handles x := by
  refine (withResultEnds (fun _ _ _ => trivial) fun _ => trivial).weaken fun t x ⟨is, same⟩ => ?_
  rw [is, same]
  exact swaps _ _ _ _ _ holds (handlesOf.mpr (.inr rfl)) fun g => resultAmong

theorem answerWithSwaps (swaps : Swaps P) (holds : P s.handles w) (r : Option Ref) :
    Step.Ends (fun _ => True) (s.answerWith r) w fun t x => P t.handles x :=
  Step.endsBind.mpr ((withResultSwaps swaps holds r).weaken fun _ _ holds => holds)

theorem failWithSwaps (swaps : Swaps P) (holds : P s.handles w) (e : CallError) :
    Step.Ends (fun _ => True) (s.failWith e) w fun t x => P t.handles x :=
  Step.endsBind.mpr ((withResultSwaps swaps holds none).weaken fun _ _ holds => holds)

theorem clearOutcomeSwaps (swaps : Swaps P) (holds : P s.handles w) :
    Step.Ends (fun _ => True) s.clearOutcome w fun t x => P t.handles x :=
  Step.endsBind.mpr ((withResultSwaps swaps holds none).weaken fun _ _ holds => holds)

theorem settleSwaps (swaps : Swaps P) (holds : P s.handles w) (outcome : Except CallError (Option Ref)) :
    Step.Ends (fun _ => True) (s.settle outcome) w fun t x => P t.handles x := by
  cases outcome with
  | ok r => exact withResultSwaps swaps holds r
  | error e => exact holds

theorem replaceReceiverSwaps (swaps : Swaps P) (holds : P s.handles w) (r : Option Ref) :
    Step.Ends (fun _ => True) (s.replaceReceiver r) w fun t x => P t.handles x := by
  refine (replaceReceiverEnds (fun _ _ _ => trivial) fun _ => trivial).weaken fun t x ⟨is, same⟩ => ?_
  rw [is, same]
  exact swaps _ _ _ _ _ holds (handlesOf.mpr (.inl (.inl rfl))) fun g => receiverAmong

theorem replaceArgumentSwaps (swaps : Swaps P) (holds : P s.handles w) (index : Nat) (r : Option Ref) :
    Step.Ends (fun _ => True) (s.replaceArgument index r) w fun t x => P t.handles x := by
  cases at_ : s.args[index]? with
  | none =>
    rw [replaceArgumentPast at_]
    exact holds
  | some old =>
    refine (replaceArgumentEnds at_ (fun _ _ _ => trivial) fun _ => trivial).weaken fun t x ⟨is, same⟩ => ?_
    rw [is, same]
    exact swaps _ _ _ _ _ holds (handlesOf.mpr (.inl (.inr (List.mem_of_getElem? at_)))) fun g =>
      argumentAmong

end Settings
end SharedCall

theorem Edits.keeps {P : List Handle → World σ → Prop} {m : Nat} {s t : SharedCall} {a b : View}
    {v : World σ} (swaps : SharedCall.Swaps P)
    (runs : ∀ hs v x, P hs v → Leads p m v x → (∀ h ∈ hs, Spares p h v x) → P hs x)
    (edits : Edits p m s w a t v b) (holds : P s.handles w) : P t.handles v := by
  induction edits with
  | refl => exact holds
  | runs _ leads spares ih => exact runs _ _ _ ih leads spares
  | receives _ _ set ih => exact (SharedCall.replaceReceiverSwaps swaps ih _).result set
  | replaces _ _ set ih => exact (SharedCall.replaceArgumentSwaps swaps ih _ _).result set
  | answers _ _ set ih => exact (SharedCall.answerWithSwaps swaps ih _).result set
  | fails _ set ih => exact (SharedCall.failWithSwaps swaps ih _).result set

structure Shared (p : Rights σ) (n : Nat) (w₀ : World σ) (hs : List Handle) (w : World σ) : Prop where
  within : Within p n w₀ w
  own : ∀ h ∈ hs, Own n w h

namespace Shared

variable {s t : SharedCall} {hs : List Handle} {h : Handle}

theorem swaps : SharedCall.Swaps (Shared p n w₀) := by
  intro hs w old r hs' shared mem handles
  have pinned : Calm w (w.pinned .localHandle r) := pinnedCalm _ _
  refine ⟨?_, fun h mem => ?_⟩
  · exact (shared.within.calm pinned).served (.step (.released rfl)) fun h same =>
      (show old = h from same) ▸ (shared.own old mem).served pinned
  · rcases handles h mem with before | rfl
    · exact (shared.own h before).served (swappedServed w old r)
    · exact (shared.within.own (Fresh.pinned w .localHandle r) rfl).served
        (.step (.released rfl) : Served (· = old) (fun _ => True) _ _)

theorem saveOutcome (shared : Shared p n w₀ s.handles w) :
    Step.Ends (fun _ => True) s.saveOutcome w fun last x =>
      Shared p n w₀ s.handles x ∧ Own n x last.result := by
  refine Step.endsBind.mpr ((looksResolve s.result w).weaken fun r x same => ?_)
  subst same
  refine Step.endsBind.mpr ((createLocalEnds fun _ _ _ => trivial).weaken fun h y ⟨new, same⟩ => ?_)
  subst new same
  have pinned : Calm x (x.pinned .localHandle r) := pinnedCalm _ _
  exact ⟨⟨shared.within.calm pinned, fun h mem => (shared.own h mem).served pinned⟩,
    shared.within.own (Fresh.pinned _ _ _) rfl⟩

theorem release (shared : Shared p n w₀ hs w) (own : Own n w h) :
    Step.Ends (fun _ => True) (releaseHandle h) w fun _ x => Shared p n w₀ hs x := by
  refine (releaseHandleEnds fun _ => trivial).weaken fun _ x same => ?_
  subst same
  have released : Served (· = h) (fun _ => True) w (w.unpinned h) := .step (.released rfl)
  exact ⟨shared.within.served released fun g same => same ▸ own,
    fun g mem => (shared.own g mem).served released⟩

theorem rollBack (shared : Shared p n w₀ s.handles w) {last : SharedCall.SavedOutcome}
    (own : Own n w last.result) :
    Step.Ends (fun _ => True) (s.rollBack last) w fun t x => Shared p n w₀ t.handles x := by
  have all : Shared p n w₀ (last.result :: s.handles) w := by
    refine ⟨shared.within, fun h mem => ?_⟩
    rcases List.mem_cons.mp mem with rfl | before
    · exact own
    · exact shared.own h before
  have releases := all.release (shared.own s.result (SharedCall.handlesOf.mpr (.inr rfl)))
  refine Step.endsBind.mpr (releases.weaken fun _ x shared => ⟨shared.within, fun h mem => ?_⟩)
  have mem : h ∈ s.handles ∨ h = last.result := SharedCall.resultAmong mem
  exact shared.own h (by simpa [or_comm] using mem)

theorem edits {m : Nat} {a b : View} {v : World σ} (shared : Shared p n w₀ s.handles w) (fewer : n ≤ m)
    (edits : Edits p m s w a t v b) : Shared p n w₀ t.handles v := by
  refine Edits.keeps swaps (fun hs v x shared leads spares => ?_) edits shared
  exact ⟨shared.within.further fewer leads, fun h mem => ⟨(shared.own h mem).since,
    Nat.lt_of_lt_of_le (shared.own h mem).issued leads.issued,
    fun kept => (shared.own h mem).loose ((spares h mem).kept kept)⟩⟩

theorem editsOwn {m : Nat} {a b : View} {v : World σ} (edits : Edits p m s w a t v b) (old : h.id < m)
    (own : Own n w h) : Own n v h := by
  refine Edits.keeps (P := fun _ v => Own n v h) (fun _ w old r _ own _ _ => ?_)
    (fun _ v x own leads _ => ?_) edits own
  · exact own.served (w.swappedServed old r)
  · exact ⟨own.since, Nat.lt_of_lt_of_le own.issued leads.issued, fun kept => own.loose (leads.kept old kept)⟩

theorem callback {code : CallbackCode σ} (respects : code.Respects p)
    (shared : Shared p n w₀ s.handles w) :
    Step.Ends (fun _ => True) (code s) w fun r x =>
      Shared p n w₀ r.2.handles x ∧ ∀ h, Own n w h → Own n x h := by
  refine (respects s w ⟨none, [], none⟩ shared.within.still).weaken fun r x ⟨b, edits⟩ => ?_
  exact ⟨shared.edits shared.within.next edits, fun h own => editsOwn edits own.issued own⟩

theorem create (within : Within p n w₀ w) (m : MethodAddress) (receiver : Option Ref)
    (args : List (Option Ref)) :
    Step.Ends (fun _ => True) (SharedCall.create m receiver args) w fun s x => Shared p n w₀ s.handles x := by
  unfold SharedCall.create
  refine Step.endsBind.mpr ((createLocalEnds fun _ _ _ => trivial).weaken fun h x ⟨new, same⟩ => ?_)
  subst new same
  have first : Calm w (w.pinned .localHandle receiver) := pinnedCalm _ _
  have made := Fresh.pinned w .localHandle receiver
  refine Step.endsBind.mpr ((createAllCalm args _).weaken fun hs x ⟨calm, later⟩ => ?_)
  refine Step.endsBind.mpr ((createLocalEnds fun _ _ _ => trivial).weaken fun h y ⟨new, same⟩ => ?_)
  subst new same
  have last : Calm x (x.pinned .localHandle none) := pinnedCalm _ _
  have all := (first.trans calm).trans last
  refine ⟨within.calm all, fun h mem => within.own ?_ all.records⟩
  rcases List.mem_append.mp mem with inner | result
  · rcases List.mem_cons.mp inner with rfl | arg
    · exact made.after (calm.trans last)
    · exact ((later h arg).before first).after last
  · obtain rfl := List.mem_singleton.mp result
    exact (Fresh.pinned x .localHandle none).before (first.trans calm)

end Shared

namespace Chain

variable {g : Guest σ} {invoke : Invoker σ} {s : SharedCall}

theorem runBeforesShared (lawful : g.Lawful p) (respects : Invoker.Respects p invoke)
    (hooks ran : List Callback) (shared : Shared p n w₀ s.handles w) :
    Step.Ends (fun _ => True) (runBefores g invoke hooks ran s) w fun r x =>
      Shared p n w₀ r.2.handles x := by
  induction hooks generalizing ran s w with
  | nil => exact shared
  | cons h hooks ih =>
    unfold runBefores
    have called := shared.callback (lawful.before invoke respects h.id)
    refine Step.endsBind.mpr (called.weaken fun r x ⟨shared, _⟩ => ?_)
    obtain ⟨outcome, t⟩ := r
    cases outcome with
    | error e =>
      have cleared := SharedCall.clearOutcomeSwaps Shared.swaps shared
      refine Step.endsBind.mpr (cleared.weaken fun t x shared => ?_)
      exact ih (h :: ran) shared
    | ok =>
      dsimp only
      split
      next => exact shared
      next => exact ih (h :: ran) shared

theorem runAftersShared (lawful : g.Lawful p) (respects : Invoker.Respects p invoke)
    (hooks : List Callback) (shared : Shared p n w₀ s.handles w) :
    Step.Ends (fun _ => True) (runAfters g invoke hooks s) w fun t x =>
      Shared p n w₀ t.handles x := by
  induction hooks generalizing s w with
  | nil => exact shared
  | cons h hooks ih =>
    unfold runAfters
    refine Step.endsBind.mpr (shared.saveOutcome.weaken fun last x ⟨shared, own⟩ => ?_)
    have called := shared.callback (lawful.after invoke respects h.id)
    refine Step.endsBind.mpr (called.weaken fun r x ⟨shared, kept⟩ => ?_)
    have own := kept _ own
    obtain ⟨outcome, t⟩ := r
    cases outcome with
    | error e => exact Step.endsBind.mpr ((shared.rollBack own).weaken fun t x shared => ih shared)
    | ok => exact Step.endsBind.mpr ((shared.release own).weaken fun _ x shared => ih shared)

end Chain

theorem HookedCall.looksMethod (i : HookedCall) : Step.Looks (i.method : Machine σ MethodAddress) :=
  Step.looksBind (looksRecord i.record) fun _ => Step.looksPure _

theorem HookedCall.proceedRespects {invoke : Invoker σ} (respects : Invoker.Respects p invoke)
    (i : HookedCall) (receiver : Option Ref) (args : List (Option Ref)) :
    Respects p (i.proceed invoke receiver args) := by
  refine respectsOf fun n w₀ w within => ?_
  refine Within.bind (Within.lifts (within.looks i.looksMethod)) fun m x within => ?_
  exact within.respects (callUnhookedRespects respects m receiver args)

theorem SharedCall.looksOutcome (s : SharedCall) :
    Step.Looks (s.outcome : Machine σ (Except CallError (Option Ref))) := by
  unfold SharedCall.outcome
  split
  next => exact Step.looksPure _
  next => exact Step.looksBind (looksResolve s.result) fun _ => Step.looksPure _

namespace Chain

variable {g : Guest σ} {invoke : Invoker σ} {s : SharedCall}

theorem aroundShared (lawful : g.Lawful p) (respects : Invoker.Respects p invoke) (i : HookedCall)
    (hooks : List Callback) (shared : Shared p n w₀ s.handles w) :
    Step.Ends (fun _ => True) (around g invoke i hooks s) w fun t x =>
      Shared p n w₀ t.handles x := by
  refine Step.endsBind.mpr ((runBeforesShared lawful respects hooks [] shared).weaken fun r x shared => ?_)
  obtain ⟨ran, t⟩ := r
  dsimp only at shared ⊢
  split
  next => exact runAftersShared lawful respects ran shared
  next =>
    refine Step.endsBind.mpr ((looksResolve t.receiver x).weaken fun receiver y same => ?_)
    subst same
    refine Step.endsBind.mpr ((looksResolveAll t.args y).weaken fun args z same => ?_)
    subst same
    have proceeds := shared.within.respectsOwn (i.proceedRespects respects receiver args)
    refine Step.endsBind.mpr (Step.Ends.weaken proceeds fun outcome y ⟨within, kept⟩ => ?_)
    have shared : Shared p n w₀ t.handles y := ⟨within, fun h mem => kept h (shared.own h mem)⟩
    have settles := SharedCall.settleSwaps Shared.swaps shared outcome
    refine Step.endsBind.mpr (settles.weaken fun t x shared => ?_)
    exact runAftersShared lawful respects ran shared

theorem answerRespects (lawful : g.Lawful p) (respects : Invoker.Respects p invoke) (chain : Nat)
    (i : HookedCall) : Respects p (answer g invoke chain i) := by
  refine respectsOf fun n w₀ w within => ?_
  have receiver : Step.Looks (i.receiver : Machine σ (Option Ref)) := i.boxed.looksReceiver
  have arguments : Step.Looks (i.arguments : Machine σ (List (Option Ref))) := i.boxed.looksArguments
  refine Within.bind (Within.lifts (within.looks i.looksMethod)) fun m x within => ?_
  refine Within.bind (within.looksAct fun _ => rfl) fun v x within => ?_
  refine Within.bind (Within.lifts (within.looks (Step.looksRequire _ _))) fun c x within => ?_
  split
  next =>
    refine Within.bind (Within.lifts (within.looks receiver)) fun r x within => ?_
    refine Within.bind (Within.lifts (within.looks arguments)) fun args x within => ?_
    exact within.respects (i.proceedRespects respects r args)
  next =>
    refine Within.bind (Within.lifts (within.looks arguments)) fun args x within => ?_
    refine Within.bind (Within.lifts (within.looks receiver)) fun r x within => ?_
    refine Action.endsLiftBind.mpr ((Shared.create within m r args).weaken fun s x shared => ?_)
    refine Action.endsLiftBind.mpr ((aroundShared lawful respects i _ shared).weaken fun s x shared => ?_)
    refine Action.endsLiftBind.mpr ((s.looksOutcome x).weaken fun r y same => ?_)
    subst same
    refine Action.endsLiftBind.mpr ((releaseAllServed fun h mem => mem).weaken fun _ z released => ?_)
    exact Action.endsOfExcept.mpr (shared.within.served released shared.own)

end Chain
end Detour
