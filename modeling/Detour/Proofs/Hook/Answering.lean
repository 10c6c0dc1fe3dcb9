import Detour.Proofs.Hook.Boxed
import Detour.Proofs.Hook.Calling
import Detour.Proofs.Hook.Handling
import Detour.Proofs.Hook.Room

/-! The frame of a hooked call, from where its arguments are boxed to where its references are written back.
Boxing is declined only where a service was made to fail; after it the handler answers, and what is left to do
cannot fail. -/
namespace Detour

open World

variable {σ : Type} {w x : World σ} {g : Guest σ} {invoke : Invoker σ} {id : Nat} {r : InstalledHook}
  {frame after : Frame} {all : List Passed}

structure Frame.Carries (frame : Frame) (r : InstalledHook) (h : Heap) : Prop where
  abi : frame.abi = r.interceptor.arch.abi
  room : Frame.sizeFor frame.abi r.slots ≤ frame.bytes.size
  live : ∀ s ∈ r.slots, s.tag = .reference → ∃ a x, frame.referenceAt s = .ok a ∧ h.Denotes a x

namespace Frame.Carries

variable {h : Heap}

theorem arrivesEach (carries : frame.Carries r h)
    (slots : r.slots = Detour.slots r.interceptor.arch.abi r.shorty r.isStatic)
    (kinds : ∀ t ∈ r.shorty.params, t ≠ .void) {s : Slot} (mem : s ∈ r.slots) : ∃ a, Arrives frame h s a := by
  have tagged : s.tag ∈ argumentTags r.shorty r.isStatic := by
    rw [← slotsTags r.interceptor.arch.abi, ← slots]
    exact List.mem_map_of_mem mem
  by_cases reference : s.tag = .reference
  · obtain ⟨a, x, read, denotes⟩ := carries.live s mem reference
    exact ⟨_, .object reference read denotes⟩
  · have room := carries.room
    rw [carries.abi, slots] at room
    obtain ⟨raw, loaded⟩ := slotLoads carries.abi room (slots ▸ mem)
    have primitive : s.tag.isPrimitive = true := by
      have proper : s.tag ∈ r.shorty.params := by
        unfold argumentTags at tagged
        split at tagged
        next => exact tagged
        next => exact (List.mem_cons.mp tagged).resolve_left reference
      have some_ := kinds s.tag proper
      cases is : s.tag <;> first | rfl | contradiction
    refine ⟨_, .primitive (v := Value.ofRaw s.tag raw) (by rwa [Value.tagOfRaw]) (Value.tagOfRaw _ _) ?_⟩
    simp [valueAt, loaded, bind, Except.bind, pure, Except.pure]

theorem arrives (carries : frame.Carries r h)
    (slots : r.slots = Detour.slots r.interceptor.arch.abi r.shorty r.isStatic)
    (kinds : ∀ t ∈ r.shorty.params, t ≠ .void) : ∃ all, List.Forall₂ (Arrives frame h) r.slots all := by
  have each : ∀ s ∈ r.slots, ∃ a, Arrives frame h s a := fun s mem => carries.arrivesEach slots kinds mem
  generalize r.slots = places at each
  clear slots
  induction places with
  | nil => exact ⟨[], .nil⟩
  | cons s places ih =>
    obtain ⟨a, head⟩ := each s (.head _)
    obtain ⟨all, rest⟩ := ih fun t mem => each t (.tail _ mem)
    exact ⟨a :: all, .cons head rest⟩

end Frame.Carries

theorem receiverArrives {h : Heap} (arrive : List.Forall₂ (Arrives frame h) r.slots all)
    (slots : r.slots = Detour.slots r.interceptor.arch.abi r.shorty r.isStatic) (dynamic : r.isStatic = false) :
    ∃ x rest, all = .object x :: rest := by
  have tags := slotsTags r.interceptor.arch.abi r.shorty r.isStatic
  rw [← slots, dynamic] at tags
  generalize r.slots = places at arrive tags
  cases arrive with
  | nil => cases tags
  | @cons s a _ rest head _ =>
    obtain ⟨_, x, is, _⟩ := head.reference (List.cons.inj tags).1
    exact ⟨x, rest, by rw [is]⟩

def InstalledHook.box (r : InstalledHook) (frame : Frame) : Act σ RuntimeError BoxedFrame :=
  Boxing.ofFrame frame r.slots r.isStatic r.interceptor.settings.emptyArgsArray

structure Opened (g : Guest σ) (invoke : Invoker σ) (id : Nat) (r : InstalledHook) (frame : Frame) (w : World σ)
    (all : List Passed) (boxed : BoxedFrame) (u : World σ) : Prop where
  boxes : (r.box frame).run w = .ok (.ok boxed, u)
  run : answerFrame g invoke id frame w = (do
    let result ← (r.interceptor.handler.answer g invoke ⟨id, boxed⟩).attempt
    finishFrame r frame boxed result) u
  keeps : boxed.Keeps r.isStatic w.vm.heap.objects.size all u
  array : boxed.array = none ↔ ((r.slots.drop (if r.isStatic then 0 else 1)).isEmpty &&
    !r.interceptor.settings.emptyArgsArray) = true
  quiet : w.disturbed = [] → u.disturbed = []
  classes : u.vm.classes = w.vm.classes
  tidy : Tidy w u
  fresh : ∀ h ∈ boxed.handles, Fresh w h u
  spends : w.vm.heap.Spends (r.slots.length + 1) u.vm.heap

theorem Opened.foreign {p : Rights σ} {boxed : BoxedFrame} {u : World σ}
    (opened : Opened g invoke id r frame w all boxed u) (owned : ∀ h, p.mine w.user h → h.id < w.vm.handles.next) :
    ∀ h ∈ boxed.handles, ¬ p.mine u.user h :=
  fun h mem => (opened.fresh h mem).foreign owned opened.tidy

structure Declined (g : Guest σ) (invoke : Invoker σ) (id : Nat) (r : InstalledHook) (frame : Frame) (w : World σ)
    (e : RuntimeError) (u : World σ) : Prop where
  boxes : (r.box frame).run w = .ok (.error e, u)
  run : answerFrame g invoke id frame w = .ok ((.error (.runtime e), frame), u)
  disturbed : w.disturbed ≠ []
  tidy : Tidy w u
  spends : w.vm.heap.Spends (r.slots.length + 1) u.vm.heap

theorem answerFrameRun (g : Guest σ) (invoke : Invoker σ) (frame : Frame) (found : w.records[id]? = some r) :
    answerFrame g invoke id frame w = (do
      match ← (r.box frame).attempt with
      | .error e => return (.error (.runtime e), frame)
      | .ok boxed =>
        let result ← (r.interceptor.handler.answer g invoke ⟨id, boxed⟩).attempt
        finishFrame r frame boxed result : Machine σ (Except CallError Value × Frame)) w :=
  (congrFun (answerFrameParts g invoke id frame) w).trans (Step.bindRun (recordRun found))

section Boxing

variable (g invoke) (arrive : List.Forall₂ (Arrives frame w.vm.heap) r.slots all)
  (instance_ : r.isStatic = false → ∃ x rest, all = .object x :: rest) (faithful : w.lost = none)

include arrive instance_ faithful

theorem answerBoxes (found : w.records[id]? = some r) :
    RanOut w (r.slots.length + 1) ((r.box frame).run w) ∨ (∃ e u, Declined g invoke id r frame w e u) ∨
      ∃ boxed u, Opened g invoke id r frame w all boxed u := by
  have run := answerFrameRun g invoke frame found
  have ends := Boxing.ofFrameEnds (T := (· = .referencesExhausted)) rfl
    r.interceptor.settings.emptyArgsArray arrive instance_ faithful
  have tidies := Boxing.ofFrameTidy frame r.slots r.isStatic r.interceptor.settings.emptyArgsArray w
  have arrays := Boxing.ofFrameArray frame r.slots r.isStatic r.interceptor.settings.emptyArgsArray w
  have costs : Costs (r.slots.length + 1) (r.box frame : Act σ RuntimeError BoxedFrame).run :=
    Boxing.ofFrameCosts r.slots r.isStatic r.interceptor.settings.emptyArgsArray
  -- Four accounts of one boxing: what it gives, what it leaves, when there is no array, and what it costs.
  rcases costs.runsOut ((Step.Ends.both ends tidies).both arrays) with
    ran | ⟨b, u, boxes, ⟨⟨⟨fair, keeps⟩, tidy, fresh⟩, array⟩, spends⟩
  · exact .inl ran
  · cases b with
    | error e =>
      exact .inr (.inl ⟨e, u, boxes, run.trans (Step.bindRun boxes), fair.refused e rfl, tidy, spends⟩)
    | ok boxed =>
      refine .inr (.inr ⟨boxed, u, ?_⟩)
      exact {
        boxes
        run := run.trans (Step.bindRun boxes)
        keeps := keeps boxed rfl
        array := array boxed rfl
        quiet := fair.quiet
        classes := fair.classes boxed rfl
        tidy
        fresh := fresh boxed rfl
        spends }

theorem answerOpened (found : w.records[id]? = some r) :
    RanOut w (r.slots.length + 1) (answerFrame g invoke id frame w) ∨
      (∃ e u, Declined g invoke id r frame w e u) ∨ ∃ boxed u, Opened g invoke id r frame w all boxed u :=
  (answerBoxes g invoke arrive instance_ faithful found).imp_left fun ran =>
    ran.first (answerFrameRun g invoke frame found)

theorem boxedOpened (found : w.records[id]? = some r) {boxed : BoxedFrame} {u : World σ}
    (boxes : (r.box frame).run w = .ok (.ok boxed, u)) : Opened g invoke id r frame w all boxed u := by
  rcases answerBoxes g invoke arrive instance_ faithful found with ran | ⟨e, v, declined⟩ | ⟨b, v, opened⟩
  · cases boxes.symm.trans ran.run
  · cases boxes.symm.trans declined.boxes
  · cases boxes.symm.trans opened.boxes
    exact opened

end Boxing

namespace BoxedFrame.Keeps

variable {p : Rights σ} {u : World σ} {boxed : BoxedFrame} {k : Nat} {arch : Architecture}
  {result : Except CallError (Option Ref)} {converted : Except CallError Value}

theorem held (keeps : boxed.Keeps r.isStatic k all u) (leads : Leads p u.vm.handles.next u x)
    (foreign : ∀ h ∈ boxed.handles, ¬ p.mine u.user h) :
    Pins x.vm 0 all boxed.references ∧ ∀ h ∈ boxed.handles, ∃ o, x.vm.Held h o := by
  have held : ∀ h ∈ boxed.handles, ∀ o, u.vm.Held h o → x.vm.Held h o := fun h mem o held =>
    leads.held (.inr ⟨held.1, foreign h mem⟩) held
  refine ⟨keeps.references.imp fun e mem o => held e.2 (List.mem_append_left _ (List.mem_map_of_mem mem)) o,
    fun h mem => ?_⟩
  obtain ⟨o, before⟩ := keeps.live h mem
  exact ⟨o, held h mem o before⟩

theorem writes (keeps : boxed.Keeps r.isStatic k all u) (pins : Pins x.vm 0 all boxed.references)
    (faithful : x.lost = none) (abi : frame.abi = arch.abi)
    (slots : r.slots = Detour.slots arch.abi r.shorty r.isStatic)
    (room : Frame.sizeFor arch.abi r.slots ≤ frame.bytes.size) :
    ∃ after, Boxing.fixReferences frame r.slots boxed.references x = .ok (after, x) ∧
      Boxing.Fixed x.vm r.slots boxed.references frame after := by
  rw [slots] at room
  have fixes := Boxing.fixReferencesEnds (T := fun _ => False) abi room (fun e mem => (pins.live e mem).2)
    keeps.references.ordered faithful
  rw [← slots] at fixes
  obtain ⟨after, _, written, rfl, fixed⟩ := fixes.sure
  exact ⟨after, written, fixed⟩

theorem finishes (keeps : boxed.Keeps r.isStatic k all u) (live : ∀ h ∈ boxed.handles, ∃ o, x.vm.Held h o)
    (written : Boxing.fixReferences frame r.slots boxed.references x = .ok (after, x))
    (converts : convertOutcome r result x = .ok (converted, x)) :
    ∃ z, finishFrame r frame boxed result x = .ok ((converted, after), z) ∧
      Served (· ∈ boxed.handles) (fun _ => True) x z ∧ Handled x z := by
  obtain ⟨_, z, released, ⟨served, _⟩, handled⟩ :=
    ((releaseAllEnds (T := fun _ => False) keeps.distinct live).both (Handles.releaseAll boxed.handles _)).sure
  refine ⟨z, ?_, served, handled⟩
  unfold finishFrame
  rw [Step.bindRun written, Step.bindRun converts]
  exact Step.bindRun released

end BoxedFrame.Keeps
end Detour
