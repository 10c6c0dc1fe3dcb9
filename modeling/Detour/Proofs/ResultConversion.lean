import Detour.Proofs.FrameReferences

/-! The result of a hooked call, from the object that the handler returns to the word that compiled code is given.
A result that fits is read back from its word as it is, whatever its sign or its bit pattern; for any other the
word is zero, and one error is raised. -/
namespace Detour

open World

variable {σ : Type} {w x u : World σ} {g : Guest σ} {depth index id : Nat} {r : InstalledHook} {d : Descriptor}
  {frame : Frame} {all : List Passed} {boxed : BoxedFrame} {p : Rights σ}

structure Decoded (declared : Tag) (x : World σ) (v : Value) (raw : UInt64) (z : World σ) : Prop where
  value : Value.ofRaw declared raw = v
  raised : z.raised = x.raised
  pending : z.pending = none
  heap : z.vm.heap = x.vm.heap

structure Failed (x : World σ) (e : CallError) (raw : UInt64) (z : World σ) : Prop where
  zero : raw = 0
  raised : z.raised = x.raised ++ [e]
  pending : z.pending = some e
  heap : z.vm.heap = x.vm.heap

theorem Opened.word {obj : Option Ref} {outcome : Except CallError Value}
    (opened : Opened g (call g depth) id r frame w all boxed u) (active : Active w index d id r)
    (carries : frame.Carries r w.vm.heap) (steady : Steady p w)
    (leads : Leads p u.vm.handles.next u x)
    (answered : (r.interceptor.handler.answer g (call g depth) ⟨id, boxed⟩).run u = .ok (.ok obj, x))
    (converts : (Boxing.convertResult (.live index) r.shorty.result obj).run x = .ok (outcome, x)) :
    ∃ z, trampoline g (call g depth) (.live index) frame.bytes w = rawOutcome outcome z ∧ Handled x z := by
  obtain ⟨after, answers⟩ := opened.answered active.made.slots carries steady leads
  rw [← active.hooked.method] at converts
  have converted : convertOutcome r (.ok obj) x = .ok (outcome, x) := converts
  obtain ⟨z, finished, handled⟩ := answers.finishes converted
  refine ⟨z, (trampolineParts active.recorded active.hooked.found carries.abi).trans ?_, handled⟩
  have run := (Step.bindRun answered).trans finished
  exact Step.bindRun (opened.run.trans run)

theorem resultDecoded (mine : σ → Handle → Prop) (arch : Architecture) (layout : Layout) (user : σ)
    (nothing : ∀ h, ¬ mine user h) (w : World σ)
    (reachable : Reachable (.owning mine) (World.start (Vm.start arch layout) user) w)
    (index id : Nat) (recorded : w.recordOf (.live index) = some id) (r : InstalledHook)
    (found : w.records[id]? = some r) (configured : r.interceptor.arch = arch) (g : Guest σ)
    (lawful : g.Lawful (.owning mine)) (depth : Nat) (frame : Frame) (carries : frame.Carries r w.vm.heap)
    (boxed : BoxedFrame) (u : World σ) (boxes : (r.box frame).run w = .ok (.ok boxed, u)) (obj : Option Ref)
    (x : World σ)
    (answered : (r.interceptor.handler.answer g (call g depth) ⟨id, boxed⟩).run u = .ok (.ok obj, x)) :
    ∃ info, method (.live index) x = .ok (info, x) ∧
      (∀ v, Yields x info r.shorty.result obj v → ∃ raw z,
        trampoline g (call g depth) (.live index) frame.bytes w = .ok (raw, z) ∧
          Decoded r.shorty.result x v raw z) ∧
      (∀ e, Rejects x info r.shorty.result obj e → ∃ raw z,
        trampoline g (call g depth) (.live index) frame.bytes w = .ok (raw, z) ∧ Failed x e raw z) ∧
      ((∀ o, obj = some o → ∃ s, x.OfClass o s) →
        (∃ v, Yields x info r.shorty.result obj v) ∨ ∃ e, Rejects x info r.shorty.result obj e) := by
  obtain ⟨steady, sound, d, active⟩ := reachable.active nothing recorded found configured
  obtain ⟨all, arrive⟩ := carries.arrives active.made.slots (Descriptor.shortyProper active.shorty)
  have opened := boxedOpened g (call g depth) arrive (receiverArrives arrive active.made.slots) steady.lost found
    boxes
  have later := steady.tidy opened.tidy
  have respects := handlerRespects lawful (callRespects lawful depth) r.interceptor.handler ⟨id, boxed⟩
  have leads := Step.Ends.result (respects u later.ready) answered
  obtain ⟨info, known⟩ := active.known steady.ready sound opened.tidy leads
  refine ⟨info, known, fun v yields => ?_, fun e rejects => ?_, yieldsOrRejects x info _⟩
  · obtain ⟨z, run, handled⟩ := opened.word active carries steady leads answered (yieldsRun known yields)
    refine ⟨_, z, run, ?_, by rw [handled], ?_, handled.heap⟩
    · rw [← yields.tag, Value.ofRawToRaw]
    · rw [handled]
      exact (later.leads leads).ready.clear
  · obtain ⟨z, run, handled⟩ := opened.word active carries steady leads answered (rejectsRun known rejects)
    refine ⟨_, _, run, rfl, ?_, rfl, handled.heap⟩
    rw [handled]

namespace Sample

def answersObject : Bool :=
  match (record.box arriving).run moving with
  | .ok (.ok boxed, u) =>
    match (record.interceptor.handler.answer answering (call answering 0) ⟨0, boxed⟩).run u with
    | .ok (.ok (some o), x) => x.vm.heap.get? o = some (.instance .object) ∧
      x.vm.methods = moving.vm.methods ∧ x.vm.classes = moving.vm.classes
    | _ => false
  | _ => false

theorem answersObjectRun : ∃ boxed u o x, (record.box arriving).run moving = .ok (.ok boxed, u) ∧
    (record.interceptor.handler.answer answering (call answering 0) ⟨0, boxed⟩).run u = .ok (.ok (some o), x) ∧
    x.OfClass o .object ∧ x.vm.methods = moving.vm.methods ∧ x.vm.classes = moving.vm.classes := by
  have answers : answersObject = true := by decide +kernel
  unfold answersObject at answers
  split at answers
  next boxed u boxes =>
    split at answers
    next o x run =>
      obtain ⟨there, methods, classes⟩ := of_decide_eq_true answers
      exact ⟨boxed, u, o, x, boxes, run, ⟨_, there, rfl⟩, methods, classes⟩
    next => contradiction
  next => contradiction

end Sample

theorem sampleResultDecoded : ∃ boxed u o x raw z,
    (Sample.record.box Sample.arriving).run Sample.moving = .ok (.ok boxed, u) ∧
      (Sample.record.interceptor.handler.answer Sample.answering (call Sample.answering 0) ⟨0, boxed⟩).run u =
        .ok (.ok (some o), x) ∧
      trampoline Sample.answering (call Sample.answering 0) (.live 0) Sample.arriving.bytes Sample.moving =
        .ok (raw, z) ∧
      Decoded .reference x (.reference (some o)) raw z := by
  obtain ⟨boxed, u, o, x, boxes, run, is, methods, classes⟩ := Sample.answersObjectRun
  obtain ⟨info, known, yields, _⟩ := resultDecoded Sample.nobody .arm Layout.compiled () (fun _ own => own)
    Sample.moving Sample.movingInstalled 0 0 rfl Sample.record rfl rfl Sample.answering
    (Sample.answeringLawful _) 0 Sample.arriving Sample.arrivingCarries boxed u boxes (some o) x run
  have fits : Yields x info .reference (some o) (.reference (some o)) := by
    refine .reference fun s c same declared => ?_
    cases same
    obtain ⟨d, there, at_⟩ := methodIff.mp known
    have here : x.descriptor? (.live 0) = some (Sample.pick.descriptor.patched .compiledEntry 0) := by
      unfold descriptor?
      rw [methods]
      rfl
    cases here.symm.trans there
    rw [methods] at at_
    cases at_
    cases declared
    refine (isAOfClass is).mpr ?_
    rw [classes]
    unfold ClassTable.isAssignable
    rw [ClassTable.lineage]
    rfl
  obtain ⟨raw, z, handed, decoded⟩ := yields _ fits
  exact ⟨boxed, u, o, x, raw, z, boxes, run, handed, decoded⟩

end Detour
