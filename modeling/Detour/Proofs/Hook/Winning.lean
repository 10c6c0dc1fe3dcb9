import Detour.Proofs.HookState

/-! Installs that hook the method themselves. The record holds on to what its installer supplied. -/
namespace Detour

open World

variable {σ : Type} {p : Rights σ} {n : Nat} {w x : World σ}

def Supplied (w : World σ) (payload : Option Ref) (pinned : Option Handle) (x : World σ) : Prop :=
  match payload, pinned with
  | none, none => True
  | some r, some h => ∃ k, w.vm.heap.Denotes (some r) k ∧ x.vm.Held h k
  | _, _ => False

theorem Supplied.imp {payload : Option Ref} {pinned : Option Handle} {v : World σ}
    (supplied : Supplied w payload pinned x) (kept : ∀ h ∈ pinned.toList, ∀ k, x.vm.Held h k → v.vm.Held h k) :
    Supplied w payload pinned v := by
  cases payload with
  | none => cases pinned <;> exact supplied
  | some r =>
    cases pinned with
    | none => exact supplied
    | some h =>
      obtain ⟨k, denotes, held⟩ := supplied
      exact ⟨k, denotes, kept h (by simp) k held⟩

theorem Pinned.supplied {payload : Option Ref} {pinned : Option Handle} (pins : Pinned w payload pinned x) :
    Supplied w payload pinned x := by
  cases payload with
  | none => cases pinned <;> exact pins
  | some r =>
    cases pinned with
    | none => exact pins
    | some h => exact pins.2

namespace Install

structure Won (intrude : MethodAddress → Act σ RuntimeError Unit) (i : Interceptor) (index : Nat)
    (payload : Option Ref) (w : World σ) (id : Nat) (x : World σ) : Prop where
  free : w.recordOf (.live index) = none
  claims : ∃ k c u v, (check (.live index) payload).run w = .ok (.ok k, u) ∧
    (capture intrude i k).run u = .ok (.ok c, v) ∧ (patch i c).run v = .ok (.ok id, x) ∧
    id = v.records.length

structure Holding (i : Interceptor) (index : Nat) (payload : Option Ref) (w : World σ) (id o : Nat)
    (r : InstalledHook) (x : World σ) : Prop where
  found : x.records[id]? = some r
  method : r.method = .live index
  interceptor : r.interceptor = i
  payload : Supplied w payload r.payload x
  reflected : x.vm.Held r.reflected (some o)
  shows_ : x.vm.heap.Shows o (.plain (.reflected (.live index)))

variable {intrude : MethodAddress → Act σ RuntimeError Unit} {i : Interceptor} {index id : Nat}
  {payload : Option Ref}

theorem Won.run (won : Won intrude i index payload w id x) :
    (install intrude i (.live index) payload).run w = .ok (.ok id, x) := by
  obtain ⟨free, k, c, u, v, checked, captured, patched, _⟩ := won
  unfold install
  rw [Action.getBindRun, free]
  dsimp only
  rw [Action.bindRun checked, Action.bindRun captured, patched]

theorem Won.holding (won : Won intrude i index payload w id x) (lawful : Lawful p intrude)
    (ready : Ready p w) (owned : ∀ h, p.mine w.user h → h.id < w.vm.handles.next) (sound : Sound w)
    (fits : i.layout = w.vm.layout) :
    Leads p w.vm.handles.next w x ∧ ∃ r o, Holding i index payload w id o r x := by
  have leads := Step.Ends.result (installRespects lawful index payload w ready fits) won.run
  refine ⟨leads, ?_⟩
  obtain ⟨free, k, c, u, v, checks, captures, patches, last⟩ := won
  obtain ⟨tidy, known⟩ := Step.Ends.result (checkEnds (.live index) payload w) checks
  obtain ⟨d, checked⟩ := known k rfl
  have start : Within p w.vm.handles.next w w := .start ready
  have within := start.tidy tidy
  have own : ∀ h ∈ k.payload.toList, Own w.vm.handles.next u h :=
    fun h mem => start.own (checked.pinned.fresh h mem) tidy.records
  obtain ⟨_, seizes⟩ := Step.Ends.result (captureEnds lawful within k own) captures
  obtain ⟨_, seized⟩ := seizes c rfl
  have method : c.candidate.method = .live index := by rw [seized.candidate, checked.method]
  obtain ⟨o, held, shows_⟩ := seized.reflected
  rw [checked.method] at shows_
  have supplied : Supplied w payload c.candidate.payload v := by
    rw [seized.candidate]
    refine checked.pinned.supplied.imp fun h mem k held => ?_
    have fresh := checked.pinned.fresh h mem
    refine seized.meanwhile.held (.inr ⟨fresh.2, fun mine => ?_⟩) held
    exact Nat.not_le_of_lt (owned h (tidy.user ▸ mine)) fresh.1
  rcases Step.Ends.result (patchEnds method) patches with ⟨e, patched, _, _, rfl⟩ | ⟨served, recorded⟩
  · refine ⟨c.record i e, o, ?_⟩
    exact {
      found := by simp [claimed, publish, withDescriptor, last]
      method
      interceptor := rfl
      payload := supplied.imp fun _ _ _ held => held
      reflected := held
      shows_ := shows_ }
  · obtain ⟨e, r, _, hooked⟩ := (leads.straight sound).1.recorded (recorded id rfl)
    have below := (List.getElem?_eq_some_iff.mp hooked.found).1
    rw [served.records, ← last] at below
    exact (Nat.lt_irrefl _ below).elim

end Install
end Detour
