import Detour.Proofs.Frame.Faults
import Detour.Proofs.Hook.Tidy
import Detour.Proofs.Vm.Room

/-! When references run out. A piece of the layer costs as many objects as it makes at most; where there is
room for them references do not run out, and the rest of the room is left to what comes after, so that the
costs of the parts add up. -/
namespace Detour

open World

variable {σ α β ε δ : Type} {n k : Nat} {w : World σ}

def Costs (n : Nat) (c : Machine σ α) : Prop :=
  ∀ m w, w.vm.heap.Room (m + n) → Step.Ends (· ≠ .referencesExhausted) c w fun _ x => x.vm.heap.Room m

/-- A run from `w` that ends for want of references, where there is no room for `n` objects. -/
structure RanOut (w : World σ) (n : Nat) (run : Except Fault α) : Prop where
  short : ¬ w.vm.heap.Room n
  run : run = .error .referencesExhausted

theorem RanOut.earlier {v : World σ} {run : Except Fault α} {outer : Except Fault β} (ran : RanOut v k run)
    (spends : w.vm.heap.Spends n v.vm.heap) (fails : ∀ f, run = .error f → outer = .error f) :
    RanOut w (n + k) outer :=
  ⟨spends.short ran.short, fails _ ran.run⟩

theorem RanOut.first {c : Machine σ α} {f : α → Machine σ β} {x : World σ} {outer : Except Fault (β × World σ)}
    (ran : RanOut w n (c x)) (run : outer = (c >>= f) x) : RanOut w n outer :=
  ⟨ran.short, run.trans (Step.bindFault ran.run)⟩

theorem RanOut.more {run : Except Fault α} (ran : RanOut w n run) (more : n ≤ k) : RanOut w k run :=
  ⟨fun room => ran.short (room.fewer more), ran.run⟩

namespace Costs

theorem paid {T : Fault → Prop} {c : Machine σ α} {post : α → World σ → Prop} (costs : Costs n c)
    (ends : Step.Ends T c w post) :
    Step.Ends (fun f => T f ∧ (f = .referencesExhausted → ¬ w.vm.heap.Room n)) c w fun a x =>
      post a x ∧ w.vm.heap.Spends n x.vm.heap := by
  unfold Costs Step.Ends at *
  cases run : c w with
  | error f =>
    rw [run] at ends
    refine ⟨ends, fun full room => ?_⟩
    have never := costs 0 w (by rwa [Nat.zero_add])
    rw [run] at never
    exact never full
  | ok p =>
    rw [run] at ends
    refine ⟨ends, fun m room => ?_⟩
    have left := costs m w room
    rwa [run] at left

theorem runsOut {c : Machine σ α} {post : α → World σ → Prop} (costs : Costs n c)
    (ends : Step.Ends (· = .referencesExhausted) c w post) :
    RanOut w n (c w) ∨ ∃ a x, c w = .ok (a, x) ∧ post a x ∧ w.vm.heap.Spends n x.vm.heap := by
  rcases (costs.paid ends).either with ⟨f, failed, rfl, short⟩ | ⟨a, x, run, holds, spends⟩
  · exact .inl ⟨short rfl, failed⟩
  · exact .inr ⟨a, x, run, holds, spends⟩

theorem within {c : Machine σ α} (costs : Costs n c) (few : n ≤ k) : Costs k c :=
  fun m w room => costs m w (room.fewer (Nat.add_le_add_left few m))

theorem done (a : α) : Costs 0 (pure a : Machine σ α) := fun _ _ room => room

theorem bind {c : Machine σ α} {f : α → Machine σ β} (first : Costs n c) (rest : ∀ a, Costs k (f a)) :
    Costs (n + k) (c >>= f) := fun m w room => by
  rw [Nat.add_comm n k, ← Nat.add_assoc] at room
  exact Step.endsBind.mpr ((first (m + k) w room).weaken fun a x left => rest a m x left)

theorem bindFree {c : Machine σ α} {f : α → Machine σ β} (first : Costs 0 c) (rest : ∀ a, Costs k (f a)) :
    Costs k (c >>= f) :=
  (first.bind rest).within (Nat.le_of_eq (Nat.zero_add k))

theorem whether {b : Prop} [Decidable b] {c d : Machine σ α} (yes : Costs n c) (no : Costs n d) :
    Costs n (if b then c else d) := by
  split
  next => exact yes
  next => exact no

theorem still {c : Machine σ α} (ends : ∀ w, Step.Ends (· ≠ .referencesExhausted) c w fun _ x =>
      x.vm.heap.next = w.vm.heap.next ∧ x.vm.heap.objects.size = w.vm.heap.objects.size) : Costs 0 c :=
  fun _ w room => (ends w).weaken fun _ _ ⟨next, size⟩ => room.again next size

theorem looks {c : Machine σ α} (ends : ∀ w, Step.Ends (· ≠ .referencesExhausted) c w fun _ x =>
      x.vm.heap = w.vm.heap) : Costs 0 c :=
  still fun w => (ends w).weaken fun _ _ same => by simp [same]

theorem vm {c : Step Vm α} (ends : ∀ m vm, vm.heap.Room (m + n) →
      Step.Ends (· ≠ .referencesExhausted) c vm fun _ x => x.heap.Room m) : Costs n (vmStep c : Machine σ α) :=
  fun m w room => vmStepEnds.mpr (ends m w.vm room)

section Acts

variable {c : Act σ ε α}

theorem act {f : α → Act σ ε β} (first : Costs n c.run) (rest : ∀ a, Costs k (f a).run) :
    Costs (n + k) (c >>= f).run := by
  rw [Action.runBind]
  refine first.bind fun r => ?_
  cases r with
  | ok a => exact rest a
  | error e => exact (done _).within (Nat.zero_le k)

theorem lifted {c : Machine σ α} {f : α → Act σ ε β} (first : Costs n c) (rest : ∀ a, Costs k (f a).run) :
    Costs (n + k) (Detour.lift c >>= f).run := by
  rw [Action.runLift]
  exact first.bind rest

theorem actFree {f : α → Act σ ε β} (first : Costs 0 c.run) (rest : ∀ a, Costs k (f a).run) :
    Costs k (c >>= f).run :=
  (first.act rest).within (Nat.le_of_eq (Nat.zero_add k))

theorem liftedFree {c : Machine σ α} {f : α → Act σ ε β} (first : Costs 0 c) (rest : ∀ a, Costs k (f a).run) :
    Costs k (Detour.lift c >>= f).run :=
  (first.lifted rest).within (Nat.le_of_eq (Nat.zero_add k))

theorem lift {c : Machine σ α} (first : Costs n c) : Costs n (Detour.lift c : Act σ ε α).run :=
  fun m w room => Action.endsLift.mpr (first m w room)

theorem throws (e : ε) : Costs 0 (throw e : Act σ ε α).run := done _

theorem mapError {f : ε → δ} (first : Costs n c.run) : Costs n (Action.mapError f c).run :=
  fun m w room => Action.endsMapError.mpr (first m w room)

theorem map {f : α → β} (first : Costs n c.run) : Costs n (f <$> c).run :=
  fun m w room => Action.endsMap.mpr (first m w room)

end Acts

theorem serve (s : Service) : Costs 0 (World.serve s : Act σ RuntimeError Unit).run :=
  looks fun _ => (serveEnds s).weaken fun _ _ ⟨same, _⟩ => by rw [same]

theorem box (v : Value) : Costs 1 (World.box v : Act σ RuntimeError Ref).run := by
  refine (serve .box).actFree fun _ => lift (vm fun m vm room => ?_)
  unfold Vm.box
  split
  next => exact Vm.allocateRoom room _
  next => exact fun same => nomatch same

theorem allocateArray (length : Nat) : Costs 1 (World.allocateArray length : Act σ RuntimeError Ref).run :=
  (serve .array).actFree fun _ => lift (vm fun _ _ room => Vm.allocateRoom room _)

theorem initClass (c : ClassId) : Costs 1 (World.initClass c : Act σ RuntimeError Unit).run :=
  (serve .init).actFree fun _ => vm fun _ _ room => Vm.initClassRoom room (by simp)

theorem managedException (e : CallError) : Costs 1 (Detour.managedException e : Machine σ RuntimeError) := by
  unfold Detour.managedException
  split
  next => exact (done _).within (Nat.zero_le 1)
  next => exact (done _).within (Nat.zero_le 1)
  next => exact (vm fun _ _ room => Vm.allocateRoom room _ : Costs 1 _).bind fun _ => done _

theorem createLocal (target : Option Ref) : Costs 0 (World.createLocal target : Machine σ Handle) :=
  looks fun _ => (createLocalEnds (by simp)).weaken fun _ _ ⟨_, same⟩ => by rw [same]; rfl

theorem releaseHandle (h : Handle) : Costs 0 (World.releaseHandle h : Machine σ Unit) :=
  looks fun _ => (releaseHandleEnds (by simp)).weaken fun _ _ same => by rw [same]; rfl

theorem releaseAll (hs : List Handle) : Costs 0 (World.releaseAll hs : Machine σ Unit) := by
  induction hs with
  | nil => exact done _
  | cons h hs ih => exact (releaseHandle h).bindFree fun _ => ih

theorem resolve (h : Handle) : Costs 0 (World.resolve h : Machine σ (Option Ref)) := by
  refine looks fun w => Step.endsBind.mpr (vmStepEnds.mpr ((Vm.handleTargetEnds (by simp)).weaken
    fun target vm looked => ?_))
  obtain ⟨rfl, _⟩ := looked
  simp only [Step.endsBind, Step.endsGet]
  split
  next r c _ _ =>
    refine Step.endsBind.mpr (vmStepEnds.mpr ((Vm.classOfEnds (by simp) (by simp)).weaken
      fun d vm looked => ?_))
    obtain ⟨rfl, _⟩ := looked
    split <;> rfl
  next => rfl

theorem ofExcept {e : Except Fault α} (frame : ∀ f, e = .error f → f.OfFrame) :
    Costs 0 (Step.ofExcept e : Machine σ α) := by
  refine looks fun _ => Step.endsOfExcept.mpr ⟨fun _ _ => rfl, fun f failed full => ?_⟩
  have never := frame f failed
  rw [full] at never
  exact never

end Costs

namespace Boxing

variable {frame : Frame}

theorem pinReferencesCosts (index : Nat) (slots : List Slot) :
    Costs 0 (pinReferences frame index slots : Machine σ (List (Nat × Handle))) := by
  induction slots generalizing index with
  | nil => exact .done _
  | cons s slots ih =>
    unfold pinReferences
    refine .whether ?_ (ih (index + 1))
    refine (Costs.ofExcept fun _ failed => Frame.referenceFault failed).bindFree fun r => ?_
    exact (Costs.createLocal r).bindFree fun h => (ih (index + 1)).bindFree fun refs => .done _

theorem elementCosts (s : Slot) (references : List Handle) :
    Costs 1 (element frame s references : Act σ RuntimeError (Option Ref)).run := by
  unfold element
  split
  next =>
    split
    next h _ => exact (Costs.lift (Costs.resolve h)).within (Nat.zero_le 1)
    next => exact (Costs.done _).within (Nat.zero_le 1)
  next =>
    exact (Costs.ofExcept fun _ failed => Frame.valueFault failed).liftedFree fun v => (Costs.box v).map

theorem putElementCosts (array : Handle) (index : Nat) (e : Option Ref) :
    Costs 0 (putElement array index e : Act σ RuntimeError Unit).run := by
  refine (Costs.resolve array).liftedFree fun target => ?_
  cases target with
  | none => exact .throws _
  | some a =>
    refine Costs.lift (Costs.still fun w => vmStepEnds.mpr ?_)
    refine (Vm.setElementEnds (by simp) (by simp) (by simp) (by simp)).weaken fun _ x ⟨_, _, same⟩ => ?_
    simp [same, Heap.set, Heap.next]

theorem fillArrayCosts (array : Handle) (index : Nat) (slots : List Slot) (references : List Handle) :
    Costs slots.length (fillArray frame array index slots references : Act σ RuntimeError Unit).run := by
  induction slots generalizing index references with
  | nil => exact .done _
  | cons s slots ih =>
    rw [fillArrayCons, List.length_cons, Nat.add_comm]
    refine (elementCosts s references).act fun e => ?_
    exact (putElementCosts array index e).actFree fun _ => ih (index + 1) _

theorem boxArrayCosts (params : List Slot) (references : List Handle) :
    Costs (params.length + 1) (boxArray frame params references : Act σ RuntimeError Handle).run := by
  rw [Nat.add_comm]
  refine (Costs.allocateArray _).act fun array => (Costs.createLocal _).liftedFree fun h => ?_
  refine Costs.lifted (c := (fillArray frame h 0 params references).attempt) (k := 0)
    (fillArrayCosts h 0 params references) fun outcome => ?_
  cases outcome with
  | ok => exact .done _
  | error e => exact (Costs.releaseHandle h).liftedFree fun _ => .throws e

theorem ofFrameCosts (slots : List Slot) (isStatic empties : Bool) :
    Costs (slots.length + 1) (ofFrame frame slots isStatic empties : Act σ RuntimeError BoxedFrame).run := by
  refine (pinReferencesCosts 0 slots).liftedFree fun refs => ?_
  generalize (if isStatic = true then 0 else 1) = first
  dsimp only
  split
  next => exact (Costs.done _).within (Nat.zero_le _)
  next =>
    have few : (slots.drop first).length + 1 + 0 ≤ slots.length + 1 := by simp
    refine Costs.within (Costs.lifted (c := (boxArray frame _ _).attempt) (boxArrayCosts _ _) fun outcome => ?_) few
    cases outcome with
    | ok h => exact .done _
    | error e => exact (Costs.releaseAll _).liftedFree fun _ => .throws e

theorem wrapResultCosts (v : Value) : Costs 1 (wrapResult v : Act σ RuntimeError (Option Ref)).run := by
  cases v with
  | void | reference => exact (Costs.done _).within (Nat.zero_le 1)
  | _ => exact (Costs.box _).map

end Boxing
end Detour
