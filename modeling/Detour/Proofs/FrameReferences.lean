import Detour.Proofs.Hook.Converting
import Detour.Proofs.PendingErrors
import Detour.Proofs.Transparency

/-! The frame that a hooked call leaves behind. Once the arguments are boxed, every way out writes the current
locations of the objects back over the references, and nothing else. When boxing itself fails, the frame is left
with the words that it came with, and these no longer name the objects if anything has moved. -/
namespace Detour

open World

variable {σ : Type} {w x u z : World σ} {g : Guest σ} {invoke : Invoker σ} {id : Nat} {r : InstalledHook}
  {frame after : Frame} {all : List Passed} {boxed : BoxedFrame}

structure Refreshed (before now : Heap) (slots : List Slot) (frame after : Frame) : Prop where
  abi : after.abi = frame.abi
  size : after.bytes.size = frame.bytes.size
  references : ∀ s ∈ slots, s.tag = .reference →
    ∃ a b, frame.referenceAt s = .ok a ∧ after.referenceAt s = .ok b ∧ Same before now a b
  elsewhere : ∀ b, (∀ s ∈ slots, s.tag = .reference → ¬ s.Covers frame.abi b) → after.bytes[b]? = frame.bytes[b]?

theorem arrivesAt {h : Heap} {slots : List Slot} (arrive : List.Forall₂ (Arrives frame h) slots all) {i : Nat}
    {s : Slot} (at_ : slots[i]? = some s) : ∃ a, all[i]? = some a ∧ Arrives frame h s a := by
  obtain ⟨below, is⟩ := List.getElem?_eq_some_iff.mp at_
  have below' : i < all.length := arrive.length_eq ▸ below
  exact ⟨_, List.getElem?_eq_getElem below', is ▸ (List.forall₂_iff_get.mp arrive).2 i below below'⟩

theorem Boxing.Fixed.refreshed {before : Heap} {vm : Vm} {slots : List Slot} {refs : List (Nat × Handle)}
    (fixed : Fixed vm slots refs frame after) (arrive : List.Forall₂ (Arrives frame before) slots all)
    (pins : Pins vm 0 all refs) : Refreshed before vm.heap slots frame after where
  abi := fixed.abi
  size := fixed.size
  references s mem reference := by
    obtain ⟨i, at_⟩ := List.mem_iff_getElem?.mp mem
    obtain ⟨a, given, arrives⟩ := arrivesAt arrive at_
    obtain ⟨_, x, rfl, read, denotes⟩ := arrives.reference reference
    obtain ⟨h, pinned, held⟩ := pins.handle given
    rw [Nat.zero_add] at pinned
    obtain ⟨b, now, denotes'⟩ := fixed.reads _ pinned s _ at_ held
    exact ⟨_, b, read, now, x, denotes, denotes'⟩
  elsewhere b away := by
    refine fixed.elsewhere b fun e mem s at_ => away s (List.mem_of_getElem? at_) ?_
    obtain ⟨o, object⟩ := pins.arrived (i := e.1) (h := e.2) (by rwa [Nat.zero_add])
    obtain ⟨a, given, arrives⟩ := arrivesAt arrive at_
    cases object.symm.trans given
    cases arrives with
    | object kind => exact kind

/-- What keeps a hooked call from returning: references run out while its arguments are boxed, the handler does
not return, or it returns a reference to no object. -/
inductive AnswerFaults (g : Guest σ) (invoke : Invoker σ) (id : Nat) (r : InstalledHook) (frame : Frame)
    (w : World σ) : Fault → Prop
  | exhausted (ran : RanOut w (r.slots.length + 1) ((r.box frame).run w)) :
    AnswerFaults g invoke id r frame w .referencesExhausted
  | handler {boxed u f} (boxes : (r.box frame).run w = .ok (.ok boxed, u))
    (failed : (r.interceptor.handler.answer g invoke ⟨id, boxed⟩).run u = .error f) :
    AnswerFaults g invoke id r frame w f
  | stray {boxed u o x f} (boxes : (r.box frame).run w = .ok (.ok boxed, u))
    (answered : (r.interceptor.handler.answer g invoke ⟨id, boxed⟩).run u = .ok (.ok (some o), x))
    (stray : ∀ s, ¬ x.OfClass o s) : AnswerFaults g invoke id r frame w f

inductive Leaves (r : InstalledHook) (frame : Frame) (w : World σ) : Except CallError Value × Frame → World σ → Prop
  | refreshed {boxed u outcome after z} (boxes : (r.box frame).run w = .ok (.ok boxed, u))
    (refreshed : Refreshed w.vm.heap z.vm.heap r.slots frame after) : Leaves r frame w (outcome, after) z
  | declined {e z} (boxes : (r.box frame).run w = .ok (.error e, z)) (disturbed : w.disturbed ≠ [])
    (words : ∀ s ∈ r.slots, s.tag = .reference → ∀ a, frame.referenceAt s = .ok (some a) →
      w.vm.heap.Outlasts a z.vm.heap) : Leaves r frame w (.error (.runtime e), frame) z

theorem convertStray {info : Method} {result : Except CallError (Option Ref)} {f : Fault}
    (known : method r.method x = .ok (info, x)) (failed : convertOutcome r result x = .error f) :
    ∃ o, result = .ok (some o) ∧ ∀ s, ¬ x.OfClass o s := by
  cases result with
  | error e => cases failed
  | ok obj =>
    by_contra none_
    have live : ∀ o, obj = some o → ∃ s, x.OfClass o s := by
      rintro o rfl
      by_contra stray
      exact none_ ⟨o, rfl, fun s is => stray ⟨s, is⟩⟩
    rcases yieldsOrRejects x info r.shorty.result live with ⟨v, yields⟩ | ⟨e, rejects⟩
    · cases (yieldsRun known yields).symm.trans failed
    · cases (rejectsRun known rejects).symm.trans failed

structure Answered (r : InstalledHook) (frame : Frame) (all : List Passed) (boxed : BoxedFrame) (x : World σ)
    (after : Frame) : Prop where
  pins : Pins x.vm 0 all boxed.references
  written : Boxing.fixReferences frame r.slots boxed.references x = .ok (after, x)
  fixed : Boxing.Fixed x.vm r.slots boxed.references frame after
  finishes : ∀ {result converted}, convertOutcome r result x = .ok (converted, x) →
    ∃ z, finishFrame r frame boxed result x = .ok ((converted, after), z) ∧ Handled x z

theorem Opened.answered {p : Rights σ} (opened : Opened g invoke id r frame w all boxed u)
    (slots : r.slots = Detour.slots r.interceptor.arch.abi r.shorty r.isStatic)
    (carries : frame.Carries r w.vm.heap) (steady : Steady p w) (leads : Leads p u.vm.handles.next u x) :
    ∃ after, Answered r frame all boxed x after := by
  have room := carries.room
  rw [carries.abi] at room
  have faithful := ((steady.tidy opened.tidy).leads leads).lost
  obtain ⟨pins, live⟩ := opened.keeps.held leads (opened.foreign steady.owned)
  obtain ⟨after, written, fixed⟩ := opened.keeps.writes pins faithful carries.abi slots room
  refine ⟨after, pins, written, fixed, fun converts => ?_⟩
  obtain ⟨z, finished, _, handled⟩ := opened.keeps.finishes live written converts
  exact ⟨z, finished, handled⟩

theorem Opened.leaves {depth index : Nat} {d : Descriptor} {p : Rights σ}
    (opened : Opened g (call g depth) id r frame w all boxed u)
    (arrive : List.Forall₂ (Arrives frame w.vm.heap) r.slots all) (carries : frame.Carries r w.vm.heap)
    (active : Active w index d id r) (steady : Steady p w) (sound : Sound w) (lawful : g.Lawful p) :
    Step.Ends (AnswerFaults g (call g depth) id r frame w) (answerFrame g (call g depth) id frame) w
      (Leaves r frame w) := by
  have later := steady.tidy opened.tidy
  unfold Step.Ends
  rw [opened.run]
  have answers := handlerRespects lawful (callRespects lawful depth) r.interceptor.handler ⟨id, boxed⟩ u later.ready
  refine Step.endsBind.mpr ((Step.Ends.traced answers fun f run => .handler opened.boxes run).weaken
    fun result x ⟨run, leads⟩ => ?_)
  obtain ⟨info, known⟩ := active.known steady.ready sound opened.tidy leads
  obtain ⟨after, answered⟩ := opened.answered active.made.slots carries steady leads
  rcases (looksConvertOutcome r result x).either with ⟨f, failed, _⟩ | ⟨converted, _, converts, rfl⟩
  · obtain ⟨o, rfl, stray⟩ := convertStray (active.hooked.method.symm ▸ known) failed
    have fails : finishFrame r frame boxed (.ok (some o)) x = .error f :=
      (Step.bindRun answered.written).trans (Step.bindFault failed)
    unfold Step.Ends
    rw [fails]
    exact .stray opened.boxes run stray
  · obtain ⟨z, finished, handled⟩ := answered.finishes converts
    refine (Step.endsOk finished).mpr (.refreshed opened.boxes ?_)
    rw [handled.heap]
    exact answered.fixed.refreshed arrive answered.pins

theorem frameReferencesKept (mine : σ → Handle → Prop) (arch : Architecture) (layout : Layout) (user : σ)
    (nothing : ∀ h, ¬ mine user h) (w : World σ)
    (reachable : Reachable (.owning mine) (World.start (Vm.start arch layout) user) w)
    (index id : Nat) (recorded : w.recordOf (.live index) = some id) (r : InstalledHook)
    (found : w.records[id]? = some r) (configured : r.interceptor.arch = arch) (g : Guest σ)
    (lawful : g.Lawful (.owning mine)) (depth : Nat) (frame : Frame) (carries : frame.Carries r w.vm.heap) :
    Step.Ends (AnswerFaults g (call g depth) id r frame w) (answerFrame g (call g depth) id frame) w
      (Leaves r frame w) := by
  obtain ⟨steady, sound, d, active⟩ := reachable.active nothing recorded found configured
  obtain ⟨all, arrive⟩ := carries.arrives active.made.slots (Descriptor.shortyProper active.shorty)
  rcases answerBoxes g (call g depth) arrive (receiverArrives arrive active.made.slots) steady.lost found with
    ran | ⟨e, u, declined⟩ | ⟨boxed, u, opened⟩
  · unfold Step.Ends
    rw [(answerFrameRun g (call g depth) frame found).trans (Step.bindFault ran.run)]
    exact .exhausted ran
  · have later := ((Within.start steady.ready).tidy declined.tidy).leads.later
    refine (Step.endsOk declined.run).mpr ?_
    exact .declined declined.boxes declined.disturbed fun s _ _ a _ => later.outlasts a
  · exact opened.leaves arrive carries active steady sound lawful

namespace Sample

def blank : Frame := Frame.filled Architecture.arm.abi (Frame.sizeFor Architecture.arm.abi record.slots) 0

def arriving : Frame :=
  match blank.storeValues record.slots [.reference (some first), .int 7, .reference none] with
  | .ok f => f
  | .error _ => blank

def failing : World Unit := { moving with disturbed := [(.box, 0)] }

def words (f : Frame) : List (Option (Option Ref)) :=
  (record.slots.filter (·.tag = .reference)).map fun s => (f.referenceAt s).toOption

theorem arrivingWords : words arriving = [some (some first), some none] := by decide +kernel

theorem arrivingRead {s : Slot} (mem : s ∈ record.slots) (reference : s.tag = .reference) :
    arriving.referenceAt s = .ok (some first) ∨ arriving.referenceAt s = .ok none := by
  have read : (arriving.referenceAt s).toOption ∈ words arriving :=
    List.mem_map_of_mem (List.mem_filter.mpr ⟨mem, by simpa using reference⟩)
  rw [arrivingWords] at read
  cases word : arriving.referenceAt s with
  | error f => simp [word, Except.toOption] at read
  | ok a => simpa [word, Except.toOption] using read

theorem arrivingCarries : arriving.Carries record failing.vm.heap where
  abi := by decide +kernel
  room := by decide +kernel
  live s mem reference := by
    rcases arrivingRead mem reference with read | read
    · exact ⟨_, some 0, read, rfl, by decide⟩
    · exact ⟨_, none, read, trivial⟩

def leavesStale : Except Fault ((Except CallError Value × Frame) × World Unit) → Bool
  | .ok ((.error (.runtime _), after), z) => after = arriving ∧ z.vm.heap.get? first = none
  | _ => false

theorem failingLeavesStale : leavesStale (answerFrame answering (call answering 0) 0 arriving failing) := by
  decide +kernel

theorem staleAfter {z : World Unit} (gone : z.vm.heap.get? first = none) :
    ¬ Refreshed failing.vm.heap z.vm.heap record.slots arriving arriving := by
  intro refreshed
  obtain ⟨s, mem, read⟩ : ∃ s ∈ record.slots, s.tag = .reference ∧ arriving.referenceAt s = .ok (some first) := by
    have there : (some (some first)) ∈ words arriving := by simp [arrivingWords]
    obtain ⟨s, mem, read⟩ := List.mem_map.mp there
    obtain ⟨mem, reference⟩ := List.mem_filter.mp mem
    refine ⟨s, mem, by simpa using reference, ?_⟩
    cases word : arriving.referenceAt s with
    | error f => simp [word, Except.toOption] at read
    | ok a => simpa [word, Except.toOption] using read
  obtain ⟨a, b, before, after, x, _, now⟩ := refreshed.references s mem read.1
  cases after.symm.trans read.2
  exact Heap.denotesFound now gone

end Sample

theorem sampleWordStale :
    Sample.arriving.Carries Sample.record Sample.failing.vm.heap ∧ ∃ e z,
      answerFrame Sample.answering (call Sample.answering 0) 0 Sample.arriving Sample.failing =
        .ok ((.error (.runtime e), Sample.arriving), z) ∧
      ¬ Refreshed Sample.failing.vm.heap z.vm.heap Sample.record.slots Sample.arriving Sample.arriving := by
  have stale := Sample.failingLeavesStale
  unfold Sample.leavesStale at stale
  split at stale
  next e after z run =>
    obtain ⟨rfl, gone⟩ := of_decide_eq_true stale
    exact ⟨Sample.arrivingCarries, e, z, run, Sample.staleAfter gone⟩
  next => contradiction

theorem sampleFrameKept :
    Step.Ends (AnswerFaults Sample.answering (call Sample.answering 0) 0 Sample.record Sample.arriving Sample.moving)
      (answerFrame Sample.answering (call Sample.answering 0) 0 Sample.arriving) Sample.moving fun answer z =>
        Refreshed Sample.moving.vm.heap z.vm.heap Sample.record.slots Sample.arriving answer.2 := by
  have leaves := frameReferencesKept Sample.nobody .arm Layout.compiled () (fun _ own => own) Sample.moving
    Sample.movingInstalled 0 0 rfl Sample.record rfl rfl Sample.answering (Sample.answeringLawful _) 0
    Sample.arriving Sample.arrivingCarries
  refine leaves.weaken fun answer z leaves => ?_
  cases leaves with
  | refreshed _ refreshed => exact refreshed
  | declined _ disturbed => exact (disturbed rfl).elim

end Detour
