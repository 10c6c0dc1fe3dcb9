import Detour.Proofs.Frame.Transport
import Detour.Proofs.Hook.Tidy

/-! The arguments of a hooked call, from the frame to the handles that the handler reads them through. A
reference is followed by the number of its object; a primitive by its value, and by the number of the
object that wraps it once there is one. -/
namespace Detour

open World

variable {σ : Type} {T : Fault → Prop} {w x : World σ}

inductive Passed
  | object (x : Option Nat)
  | primitive (v : Value)

inductive Arrives (frame : Frame) (h : Heap) (s : Slot) : Passed → Prop
  | object {r x} (kind : s.tag = .reference) (read : frame.referenceAt s = .ok r)
    (denotes : h.Denotes r x) : Arrives frame h s (.object x)
  | primitive {v} (kind : v.tag.isPrimitive = true) (same : v.tag = s.tag)
    (read : frame.valueAt s = .ok v) : Arrives frame h s (.primitive v)

inductive Heap.Wraps (h : Heap) : Passed → Option Nat → Prop
  | object (x : Option Nat) : Wraps h (.object x) x
  | primitive {v j} (shows_ : h.Shows j (.plain (.boxed v))) : Wraps h (.primitive v) (some j)

inductive Pins (vm : Vm) : (index : Nat) → List Passed → List (Nat × Handle) → Prop
  | nil {index} : Pins vm index [] []
  | object {index x h xs refs} (held : vm.Held h x) (rest : Pins vm (index + 1) xs refs) :
    Pins vm index (.object x :: xs) ((index, h) :: refs)
  | primitive {index v xs refs} (rest : Pins vm (index + 1) xs refs) :
    Pins vm index (.primitive v :: xs) refs

namespace Arrives

variable {frame : Frame} {h : Heap} {s : Slot}

theorem reference {a : Passed} (arrives : Arrives frame h s a) (reference : s.tag = .reference) :
    ∃ r x, a = .object x ∧ frame.referenceAt s = .ok r ∧ h.Denotes r x := by
  cases arrives with
  | object _ read denotes => exact ⟨_, _, rfl, read, denotes⟩
  | primitive kind same => exact absurd (same.trans reference) (Tag.primitiveOther kind)

end Arrives

theorem Heap.Wraps.changes {free still} {vm after : Vm} {a y} (wraps : vm.heap.Wraps a y)
    (changes : Vm.Changes free still vm after) : after.heap.Wraps a y := by
  cases wraps with
  | object => exact .object y
  | primitive shows_ => exact .primitive (changes.shows trivial shows_)

namespace Pins

variable {vm after : Vm} {index : Nat} {xs : List Passed} {refs : List (Nat × Handle)}

theorem imp (pins : Pins vm index xs refs)
    (kept : ∀ e ∈ refs, ∀ x, vm.Held e.2 x → after.Held e.2 x) : Pins after index xs refs := by
  induction pins with
  | nil => exact .nil
  | @object index x h xs refs held _ ih =>
    exact .object (kept (index, h) (by simp) x held) (ih fun e mem => kept e (by simp [mem]))
  | primitive _ ih => exact .primitive (ih kept)

theorem live (pins : Pins vm index xs refs) : ∀ e ∈ refs, index ≤ e.1 ∧ ∃ x, vm.Held e.2 x := by
  induction pins with
  | nil => simp
  | object held _ ih =>
    intro e mem
    rcases List.mem_cons.mp mem with rfl | later
    · exact ⟨Nat.le_refl _, _, held⟩
    · exact ⟨Nat.le_of_succ_le (ih e later).1, (ih e later).2⟩
  | primitive _ ih => exact fun e mem => ⟨Nat.le_of_succ_le (ih e mem).1, (ih e mem).2⟩

theorem ordered (pins : Pins vm index xs refs) : refs.Pairwise (·.1 < ·.1) := by
  induction pins with
  | nil => exact .nil
  | object _ rest ih => exact List.pairwise_cons.mpr ⟨fun e mem => (rest.live e mem).1, ih⟩
  | primitive _ ih => exact ih

theorem handle (pins : Pins vm index xs refs) {i : Nat} {x : Option Nat} (is : xs[i]? = some (.object x)) :
    ∃ h, (index + i, h) ∈ refs ∧ vm.Held h x := by
  induction pins generalizing i with
  | nil => cases is
  | @object index y h xs refs held _ ih =>
    cases i with
    | zero =>
      cases is
      exact ⟨h, .head _, held⟩
    | succ i =>
      obtain ⟨g, mem, held⟩ := ih is
      exact ⟨g, .tail _ (by rwa [Nat.add_right_comm] at mem), held⟩
  | @primitive index v xs refs _ ih =>
    cases i with
    | zero => cases is
    | succ i =>
      obtain ⟨g, mem, held⟩ := ih is
      exact ⟨g, by rwa [Nat.add_right_comm] at mem, held⟩

theorem arrived (pins : Pins vm index xs refs) {i : Nat} {h : Handle} (mem : (index + i, h) ∈ refs) :
    ∃ x, xs[i]? = some (.object x) := by
  induction pins generalizing i with
  | nil => cases mem
  | @object index y _ xs refs _ rest ih =>
    cases i with
    | zero => exact ⟨y, rfl⟩
    | succ i =>
      rcases List.mem_cons.mp mem with same | later
      · cases (Prod.mk.inj same).1
      · exact ih (by rwa [Nat.add_right_comm])
  | @primitive index v xs refs rest ih =>
    cases i with
    | zero => exact absurd (rest.live _ mem).1 (Nat.not_succ_le_self _)
    | succ i => exact ih (by rwa [Nat.add_right_comm])

theorem drop (pins : Pins vm 0 xs refs) {first : Nat} (few : first ≤ 1)
    (head : first = 1 → ∃ x rest, xs = .object x :: rest) :
    Pins vm first (xs.drop first) (refs.filter (first ≤ ·.1)) := by
  rcases Nat.le_one_iff_eq_zero_or_eq_one.mp few with rfl | rfl
  · simpa using pins
  · obtain ⟨x, rest, rfl⟩ := head rfl
    cases pins with
    | object held rest =>
      have all := fun e mem => (rest.live e mem).1
      simp only [List.drop_one, List.tail_cons, List.filter_cons, decide_eq_true_eq]
      rw [if_neg (by omega), List.filter_eq_self.mpr fun e mem => by simpa using all e mem]
      exact rest

end Pins

namespace Boxing

variable {frame : Frame} {h₀ : Heap} {index : Nat} {slots : List Slot} {xs : List Passed}
  {refs : List (Nat × Handle)}

structure PinnedAll (w : World σ) (index : Nat) (xs : List Passed) (refs : List (Nat × Handle))
    (x : World σ) : Prop where
  calm : Calm w x
  heap : x.vm.heap = w.vm.heap
  disturbed : x.disturbed = w.disturbed
  classes : x.vm.classes = w.vm.classes
  pins : Pins x.vm index xs refs
  distinct : (refs.map (·.2)).Nodup
  new : ∀ e ∈ refs, w.vm.handles.next ≤ e.2.id

theorem PinnedAll.object {r : Option Ref} {o : Option Nat} (denotes : w.vm.heap.Denotes r o)
    (rest : PinnedAll (w.pinned .localHandle r) (index + 1) xs refs x) :
    PinnedAll w index (.object o :: xs) ((index, ⟨w.vm.handles.next⟩) :: refs) x where
  calm := (pinnedCalm _ _).trans rest.calm
  heap := rest.heap
  disturbed := rest.disturbed
  classes := rest.classes
  pins := .object (Vm.Calm.holds rest.calm.vm (pinnedHeld denotes)) rest.pins
  distinct := by
    refine List.nodup_cons.mpr ⟨fun mem => ?_, rest.distinct⟩
    obtain ⟨e, found, same⟩ := List.mem_map.mp mem
    have later := rest.new e found
    rw [same] at later
    exact Nat.lt_irrefl _ later
  new e mem := by
    rcases List.mem_cons.mp mem with rfl | later
    · exact Nat.le_refl _
    · exact Nat.le_of_succ_le (rest.new e later)

theorem PinnedAll.primitive {v : Value} (rest : PinnedAll w (index + 1) xs refs x) :
    PinnedAll w index (.primitive v :: xs) refs x :=
  { rest with pins := .primitive rest.pins }

theorem pinReferencesEnds (heap : w.vm.heap = h₀) (arrive : List.Forall₂ (Arrives frame h₀) slots xs) :
    Step.Ends T (pinReferences frame index slots) w fun refs x => PinnedAll w index xs refs x := by
  induction arrive generalizing index w with
  | nil => exact ⟨.refl w, rfl, rfl, rfl, .nil, .nil, by simp⟩
  | @cons s a slots xs head _ ih =>
    unfold pinReferences
    cases head with
    | @object r o kind read denotes =>
      rw [← heap] at denotes
      rw [if_pos kind]
      refine Step.endsBind.mpr ((Step.endsExcept read).mpr (Step.endsBind.mpr ?_))
      refine (createHeldEnds denotes).weaken fun h y created => ?_
      obtain ⟨rfl, rfl⟩ := created
      have after : (w.pinned .localHandle r).vm.heap = h₀ := heap
      exact Step.endsBind.mpr ((ih after).weaken fun refs z rest => .object denotes rest)
    | primitive kind same =>
      rw [if_neg (same ▸ Tag.primitiveOther kind)]
      exact (ih heap).weaken fun refs z rest => rest.primitive

/-! ## The argument array -/

structure Fair {α ε : Type} (w : World σ) (r : Except ε α) (x : World σ) : Prop where
  quiet : w.disturbed = [] → x.disturbed = []
  refused : ∀ e, r = .error e → w.disturbed ≠ []
  classes : ∀ a, r = .ok a → x.vm.classes = w.vm.classes

theorem Fair.failed {α ε : Type} {e : ε} (disturbed : w.disturbed ≠ []) :
    Fair w (.error e : Except ε α) x :=
  ⟨fun quiet => absurd quiet disturbed, fun _ _ => disturbed, by simp⟩

theorem Fair.passed {α ε : Type} {a : α} (disturbed : x.disturbed = w.disturbed)
    (classes : x.vm.classes = w.vm.classes) : Fair w (.ok a : Except ε α) x :=
  ⟨fun quiet => disturbed.trans quiet, by simp, fun _ _ => classes⟩

theorem elementEnds {a : Passed} {s : Slot} (full : T .referencesExhausted)
    (arrives : Arrives frame h₀ s a) (pins : Pins w.vm index (a :: xs) refs) (faithful : w.lost = none) :
    Action.Ends T (element frame s (refs.map (·.2))) w fun r x =>
      Fair w r x ∧ Calm w x ∧ ∀ e, r = .ok e → ∃ y, x.vm.heap.Denotes e y ∧ x.vm.heap.Wraps a y := by
  unfold element
  cases arrives with
  | object kind =>
    rw [if_pos kind]
    cases pins with
    | @object _ y _ _ _ held =>
      refine Action.endsLift.mpr ((resolveEnds held faithful).weaken fun r x resolved => ?_)
      obtain ⟨rfl, denotes⟩ := resolved
      refine ⟨.passed rfl rfl, .refl x, fun e is => ?_⟩
      cases is
      exact ⟨_, denotes, .object _⟩
  | @primitive v kind same read =>
    rw [if_neg (same ▸ Tag.primitiveOther kind)]
    refine Action.endsLiftBind.mpr ((Step.endsExcept read).mpr ?_)
    refine Action.endsMap.mpr ((boxPrimitive full kind).weaken fun r x boxed => ?_)
    obtain ⟨made, refused⟩ := boxed
    cases r with
    | error e =>
      have refused := refused e rfl
      exact ⟨.failed refused.disturbed, refused.calm, by simp [Except.map]⟩
    | ok b =>
      have made := made b rfl
      refine ⟨⟨made.quiet, by simp [Except.map], fun _ _ => made.classes⟩, made.calm, fun e is => ?_⟩
      cases is
      exact ⟨_, made.denotes, .primitive (.plain made.object (by simp))⟩

theorem denotesSet {h : Heap} {es : List (Option Ref)} {done rest : List (Option Nat)} {e old y}
    (denote : List.Forall₂ h.Denotes es (done ++ old :: rest)) (new : h.Denotes e y) :
    List.Forall₂ h.Denotes (es.set done.length e) (done ++ y :: rest) := by
  induction done generalizing es with
  | nil =>
    cases denote with
    | cons _ tail => exact .cons new tail
  | cons z done ih =>
    cases denote with
    | cons head tail => exact .cons head (ih tail)

theorem putElementEnds {array : Handle} {k : Nat} {done rest : List (Option Nat)} {e old y}
    (held : w.vm.Held array (some k)) (faithful : w.lost = none)
    (shows_ : w.vm.heap.Shows k (.array (done ++ old :: rest))) (denotes : w.vm.heap.Denotes e y) :
    Action.Ends T (putElement array done.length e) w fun r x =>
      r = .ok () ∧ (x.disturbed = w.disturbed ∧ x.vm.classes = w.vm.classes) ∧
        Served (fun _ => False) (· ≠ k) w x ∧ x.vm.heap.Shows k (.array (done ++ y :: rest)) := by
  unfold putElement
  refine Action.endsLiftBind.mpr ((resolveEnds held faithful).weaken fun r x ⟨same, there⟩ => ?_)
  subst same
  cases r with
  | none => simp at there
  | some a =>
    obtain ⟨at_, denote⟩ : ∃ es, x.vm.heap.objects[k]? = some (.array es) ∧
        List.Forall₂ x.vm.heap.Denotes es (done ++ old :: rest) := by
      cases shows_ with
      | array at_ denote => exact ⟨_, at_, denote⟩
    rename_i es
    have found : x.vm.heap.get? a = some (.array at_) := (Heap.denotesGet there).trans denote.1
    have room := denote.2.length_eq
    refine Action.endsLift.mpr (vmStepEnds.mpr ((Vm.setElementEnds (by simp [found])
      (fun o is plain => absurd (Option.some.inj (is.symm.trans found)) (plain _))
      (fun r is gone => absurd gone (Heap.denotesFound (is ▸ denotes)))
      (fun es is short => ?_)).weaken fun _ vm ⟨es, is, same⟩ => ?_))
    · cases found.symm.trans is
      simp at room
      omega
    · cases found.symm.trans is
      subst same
      refine ⟨rfl, ⟨rfl, rfl⟩, .step (.stored there found fun differs => differs rfl), ?_⟩
      refine .array (Heap.setThere there) ?_
      exact (denotesSet denote.2 denotes).imp fun _ _ => Heap.setDenotes

structure Filled (w : World σ) (k : Nat) (done : List (Option Nat)) (xs : List Passed)
    (r : Except RuntimeError Unit) (x : World σ) : Prop where
  fair : Fair w r x
  served : Served (fun _ => False) (· ≠ k) w x
  filled : r = .ok () → ∃ ys, x.vm.heap.Shows k (.array (done ++ ys)) ∧
    List.Forall₂ x.vm.heap.Wraps xs ys

theorem pinsRest {vm : Vm} {a : Passed} {s : Slot} (arrives : Arrives frame h₀ s a)
    (pins : Pins vm index (a :: xs) refs) :
    ∃ later, Pins vm (index + 1) xs later ∧
      (if s.tag = .reference then (refs.map (·.2)).drop 1 else refs.map (·.2)) = later.map (·.2) := by
  cases arrives with
  | object kind =>
    cases pins with
    | @object _ _ h _ refs _ rest => exact ⟨refs, rest, by simp [kind]⟩
  | primitive kind same =>
    cases pins with
    | primitive rest => exact ⟨refs, rest, if_neg (same ▸ Tag.primitiveOther kind)⟩

theorem fillArrayEnds {array : Handle} {k : Nat} {done : List (Option Nat)}
    (full : T .referencesExhausted) (arrive : List.Forall₂ (Arrives frame h₀) slots xs)
    (pins : Pins w.vm index xs refs) (faithful : w.lost = none) (held : w.vm.Held array (some k))
    (shows_ : w.vm.heap.Shows k (.array (done ++ List.replicate slots.length none))) :
    Action.Ends T (fillArray frame array done.length slots (refs.map (·.2))) w fun r x =>
      Filled w k done xs r x := by
  induction arrive generalizing index refs done w with
  | nil => exact ⟨.passed rfl rfl, .refl w, fun _ => ⟨[], by simpa using shows_, .nil⟩⟩
  | @cons s a slots xs head _ ih =>
    rw [fillArrayCons]
    refine Action.endsBind.mpr ((elementEnds full head pins faithful).weaken
      fun r x ⟨fair, calm, made⟩ => ⟨fun e ok => ?_, fun e failed => ?_⟩)
    · obtain ⟨y, denotes, wraps⟩ := made e ok
      have there : x.vm.Held array (some k) := Vm.Calm.holds calm.vm held
      have still := calm.lost.trans faithful
      refine Action.endsBind.mpr ((putElementEnds there still (Vm.Calm.keeps calm.vm shows_)
        denotes).weaken fun r z ⟨done', ⟨disturbed, classes⟩, put, shows_⟩ => ⟨fun _ _ => ?_, by simp [done']⟩)
      have both : Served (fun _ => False) (· ≠ k) w z := calm.served.trans put
      obtain ⟨later, rest, handles⟩ := pinsRest head pins
      have rest := rest.imp fun e _ x held => both.vm.held id held
      have shows_ : z.vm.heap.Shows k (.array ((done ++ [y]) ++ List.replicate slots.length none)) := by
        simpa using shows_
      have filled := ih rest (put.lost.trans still) (put.vm.held id there) shows_
      rw [handles, show done.length + 1 = (done ++ [y]).length by simp]
      refine filled.weaken fun r v filled => ⟨⟨fun quiet => ?_, fun e failed quiet => ?_, fun a is => ?_⟩,
        both.trans filled.served, fun ok => ?_⟩
      · exact filled.fair.quiet (disturbed.trans (fair.quiet quiet))
      · exact filled.fair.refused e failed (disturbed.trans (fair.quiet quiet))
      · exact (filled.fair.classes a is).trans (classes.trans (fair.classes e ok))
      · obtain ⟨ys, shows_, wrap⟩ := filled.filled ok
        exact ⟨y :: ys, by simpa using shows_,
          .cons ((wraps.changes put.vm).changes filled.served.vm) wrap⟩
    · exact ⟨.failed (fair.refused e failed), calm.served, by simp⟩

structure Arrayed (w : World σ) (k : Nat) (xs : List Passed) (array : Handle) : Prop where
  held : w.vm.Held array (some k)
  shows_ : ∃ ys, w.vm.heap.Shows k (.array ys) ∧ List.Forall₂ w.vm.heap.Wraps xs ys

theorem boxArrayEnds (full : T .referencesExhausted) (arrive : List.Forall₂ (Arrives frame h₀) slots xs)
    (pins : Pins w.vm index xs refs) (faithful : w.lost = none) :
    Action.Ends T (boxArray frame slots (refs.map (·.2))) w fun r x =>
      Fair w r x ∧ ∀ h, r = .ok h → Arrayed x w.vm.heap.objects.size xs h := by
  unfold boxArray
  refine Action.endsBind.mpr ((allocateArrayEnds full _).weaken fun r x ⟨made, refused⟩ =>
    ⟨fun array ok => ?_, fun e failed => ?_⟩)
  · have made := made array ok
    refine Action.endsLiftBind.mpr ((createHeldEnds made.denotes).weaken fun h y ⟨new, same⟩ => ?_)
    have held := @pinnedHeld σ x .localHandle (some array) _ made.denotes
    rw [← new, ← same] at held
    have calm : Calm w y := made.calm.trans (same ▸ pinnedCalm .localHandle (some array))
    have quiet : w.disturbed = [] → y.disturbed = [] := fun none_ => by rw [same]; exact made.quiet none_
    have classes : y.vm.classes = w.vm.classes := by rw [same]; exact made.classes
    have rest := pins.imp fun e _ x held => Vm.Calm.holds calm.vm held
    have empty : y.vm.heap.Shows w.vm.heap.objects.size
        (.array ([] ++ List.replicate slots.length none)) := by
      have at_ : y.vm.heap.objects[w.vm.heap.objects.size]? =
          some (.array (List.replicate slots.length none)) := by
        rw [same]
        exact made.object
      exact .array at_ (by simp [List.forall₂_iff_get])
    have fills := fillArrayEnds full arrive rest (calm.lost.trans faithful) held empty
    refine Action.endsLiftBind.mpr (fills.weaken fun r z filled => ?_)
    cases r with
    | ok =>
      refine ⟨⟨fun none_ => filled.fair.quiet (quiet none_), by simp, fun _ _ =>
        (filled.fair.classes _ rfl).trans classes⟩, fun g same => ?_⟩
      cases same
      exact ⟨filled.served.vm.held id held, filled.filled rfl⟩
    | error e =>
      have there := filled.served.vm.held id held
      have disturbed : w.disturbed ≠ [] := fun none_ => filled.fair.refused e rfl (quiet none_)
      refine Action.endsLiftBind.mpr ((releaseHeldEnds there).weaken fun _ v same => ?_)
      exact ⟨.failed disturbed, by simp⟩
  · have refused := refused e failed
    exact ⟨.failed refused.disturbed, by simp⟩

end Boxing

/-- The arguments of a hooked call as its handler is given them: handles on the references, and an array
of parameters, object number `k`, unless there is nothing to put into it. -/
structure BoxedFrame.Keeps (b : BoxedFrame) (isStatic : Bool) (k : Nat) (xs : List Passed)
    (w : World σ) : Prop where
  hasReceiver : b.hasReceiver = !isStatic
  references : Pins w.vm 0 xs b.references
  array : ∀ h, b.array = some h → Boxing.Arrayed w k (xs.drop (if isStatic then 0 else 1)) h
  without : b.array = none → xs.drop (if isStatic then 0 else 1) = []
  distinct : b.handles.Nodup

namespace Boxing

variable {frame : Frame} {slots : List Slot} {xs : List Passed}

section Kept

variable {isStatic : Bool} {k : Nat} {refs : List (Nat × Handle)}

theorem PinnedAll.withoutArray (pinned : PinnedAll w 0 xs refs x)
    (empty : xs.drop (if isStatic then 0 else 1) = []) :
    BoxedFrame.Keeps ⟨!isStatic, none, refs⟩ isStatic k xs x :=
  ⟨rfl, pinned.pins, by simp, fun _ => empty, by simpa [BoxedFrame.handles] using pinned.distinct⟩

theorem PinnedAll.withArray {y : World σ} {array : Handle} (pinned : PinnedAll w 0 xs refs x)
    (pins : Pins y.vm 0 xs refs) (new : Fresh x array y)
    (arrayed : Arrayed y k (xs.drop (if isStatic then 0 else 1)) array) :
    BoxedFrame.Keeps ⟨!isStatic, some array, refs⟩ isStatic k xs y := by
  refine ⟨rfl, pins, fun h same => Option.some.inj same ▸ arrayed, by simp, ?_⟩
  refine List.nodup_append.mpr ⟨pinned.distinct, by simp, fun h mem g same => ?_⟩
  obtain ⟨e, found, rfl⟩ := List.mem_map.mp mem
  obtain ⟨_, _, held⟩ := pinned.pins.live e found
  obtain rfl : g = array := by simpa using same
  rintro rfl
  exact Nat.not_le_of_lt held.1 new.1

end Kept

theorem ofFrameEnds (full : T .referencesExhausted) {isStatic : Bool} (empties : Bool)
    (arrive : List.Forall₂ (Arrives frame w.vm.heap) slots xs)
    (instance_ : isStatic = false → ∃ x rest, xs = .object x :: rest) (faithful : w.lost = none) :
    Action.Ends T (ofFrame frame slots isStatic empties) w fun r x =>
      Fair w r x ∧ ∀ b, r = .ok b → b.Keeps isStatic w.vm.heap.objects.size xs x := by
  unfold ofFrame
  refine Action.endsLiftBind.mpr ((pinReferencesEnds rfl arrive).weaken fun refs x pinned => ?_)
  -- `first` is the number of slots before the parameters: the receiver is boxed on its own.
  obtain ⟨first, is⟩ : ∃ first, (if isStatic = true then 0 else 1) = first := ⟨_, rfl⟩
  have few : first ≤ 1 := by rw [← is]; split <;> decide
  have head : first = 1 → ∃ x rest, xs = .object x :: rest := by
    rw [← is]
    cases isStatic with
    | true => simp
    | false => exact fun _ => instance_ rfl
  have params := pinned.pins.drop few head
  have rest := List.forall₂_drop first arrive
  dsimp only
  rw [is]
  split
  next empty =>
    refine ⟨.passed pinned.disturbed pinned.classes, fun b same => ?_⟩
    cases same
    have none_ : slots.drop first = [] := by
      rw [Bool.and_eq_true, List.isEmpty_iff] at empty
      exact empty.1
    rw [none_] at rest
    exact pinned.withoutArray (is ▸ List.forall₂_nil_left_iff.mp rest)
  next =>
    have lost := pinned.calm.lost.trans faithful
    have tidies := boxArrayTidy frame (slots.drop first) ((refs.filter (first ≤ ·.1)).map (·.2)) x
    refine Action.endsLiftBind.mpr (Step.Ends.weaken ((boxArrayEnds full rest params lost).both tidies)
      fun r y ends => ?_)
    obtain ⟨⟨fair, arrayed⟩, tidy, new⟩ := ends
    have pins : Pins y.vm 0 xs refs := pinned.pins.imp fun e _ o held =>
      tidy.vm.held (Nat.not_le_of_lt held.1) held
    cases r with
    | ok array =>
      refine ⟨⟨fun quiet => fair.quiet (pinned.disturbed.trans quiet), by simp, fun _ _ =>
        (fair.classes _ rfl).trans pinned.classes⟩, fun b same => ?_⟩
      cases same
      rw [← pinned.heap]
      exact pinned.withArray pins (new array rfl) (is ▸ arrayed array rfl)
    | error e =>
      have disturbed : w.disturbed ≠ [] := fun quiet => fair.refused e rfl (pinned.disturbed.trans quiet)
      have live : ∀ h ∈ refs.map (·.2), ∃ o, y.vm.Held h o := by
        intro h mem
        obtain ⟨e, found, rfl⟩ := List.mem_map.mp mem
        exact (pins.live e found).2
      refine Action.endsLiftBind.mpr ((releaseAllEnds pinned.distinct live).weaken fun _ z _ => ?_)
      exact ⟨.failed disturbed, by simp⟩

theorem ofFrameArray (frame : Frame) (slots : List Slot) (isStatic empties : Bool) (w : World σ) :
    Action.Ends (fun _ => True) (ofFrame frame slots isStatic empties) w fun r _ => ∀ b, r = .ok b →
      (b.array = none ↔ ((slots.drop (if isStatic then 0 else 1)).isEmpty && !empties) = true) := by
  unfold ofFrame
  generalize (if isStatic = true then 0 else 1) = first
  refine Action.endsLiftBind.mpr (Step.endsAny.weaken fun refs x _ => ?_)
  dsimp only
  split
  next empty =>
    intro b same
    cases same
    simp [empty]
  next some_ =>
    refine Action.endsLiftBind.mpr (Step.endsAny.weaken fun r x _ => ?_)
    cases r with
    | ok h =>
      intro b same
      cases same
      simp [some_]
    | error e => exact Action.endsLiftBind.mpr (Step.endsAny.weaken fun _ _ _ b same => nomatch same)

end Boxing

/-! ## What a handler is given -/

namespace BoxedFrame.Keeps

variable {b : BoxedFrame} {isStatic : Bool} {k : Nat} {xs : List Passed} {v : World σ}

theorem live (keeps : b.Keeps isStatic k xs w) : ∀ h ∈ b.handles, ∃ o, w.vm.Held h o := by
  intro h mem
  rcases List.mem_append.mp mem with reference | array
  · obtain ⟨e, found, rfl⟩ := List.mem_map.mp reference
    exact (keeps.references.live e found).2
  · exact ⟨_, (keeps.array h (by simpa using array)).held⟩

theorem leads {p : Rights σ} (keeps : b.Keeps isStatic k xs w) (leads : Leads p w.vm.handles.next w v)
    (foreign : ∀ h ∈ b.handles, ¬ p.mine w.user h) (still : b.array ≠ none → p.still k) :
    b.Keeps isStatic k xs v := by
  have kept : ∀ h ∈ b.handles, ∀ o, w.vm.Held h o → v.vm.Held h o :=
    fun h mem o held => leads.held (.inr ⟨held.1, foreign h mem⟩) held
  refine ⟨keeps.hasReceiver, ?_, fun h same => ?_, keeps.without, keeps.distinct⟩
  · exact keeps.references.imp fun e mem o =>
      kept e.2 (List.mem_append_left _ (List.mem_map_of_mem mem)) o
  · obtain ⟨held, ys, shows_, wrap⟩ := keeps.array h same
    refine ⟨kept h (List.mem_append_right _ (by simp [same])) _ held, ys,
      leads.shows (still (by simp [same])) shows_, ?_⟩
    have changed {a y} (wraps : w.vm.bare.heap.Wraps a y) : v.vm.bare.heap.Wraps a y :=
      wraps.changes leads.bare
    exact wrap.imp fun _ _ wraps => changed wraps

theorem receiverEnds {r : Option Nat} {rest : List Passed} (keeps : b.Keeps isStatic k xs w)
    (head : isStatic = false → xs = .object r :: rest) (static : isStatic = true → r = none)
    (faithful : w.lost = none) :
    Step.Ends T b.receiver w fun a y => y = w ∧ w.vm.heap.Denotes a r := by
  unfold receiver
  rw [keeps.hasReceiver]
  cases isStatic with
  | true => exact ⟨rfl, by simp [static rfl]⟩
  | false =>
    have references := keeps.references
    rw [head rfl] at references
    generalize b.references = refs at references
    cases references with
    | object held => exact resolveEnds held faithful

theorem argumentsEnds (keeps : b.Keeps isStatic k xs w) (faithful : w.lost = none) :
    Step.Ends T b.arguments w fun es y => y = w ∧
      ∃ ys, List.Forall₂ w.vm.heap.Denotes es ys ∧
        List.Forall₂ w.vm.heap.Wraps (xs.drop (if isStatic then 0 else 1)) ys := by
  unfold arguments arrayRef
  cases array : b.array with
  | none =>
    rw [keeps.without array]
    exact ⟨rfl, [], .nil, .nil⟩
  | some h =>
    obtain ⟨held, ys, shows_, wrap⟩ := keeps.array h array
    refine Step.endsBind.mpr ((resolveEnds held faithful).weaken fun r y ⟨same, denotes⟩ => ?_)
    subst same
    cases r with
    | none => simp at denotes
    | some r =>
      cases shows_ with
      | @array es _ at_ denote =>
        have found : y.vm.heap.get? r = some (.array es) := (Heap.denotesGet denotes).trans at_
        refine vmStepEnds.mpr ((Vm.elementsEnds (by simp [found])
          (fun o is plain => absurd (Option.some.inj (is.symm.trans found)) (plain _))).weaken
            fun es vm ⟨same, is⟩ => ?_)
        subst same
        cases found.symm.trans is
        exact ⟨rfl, ys, denote, wrap⟩

end BoxedFrame.Keeps

structure Boxing.Fixed (vm : Vm) (slots : List Slot) (refs : List (Nat × Handle)) (frame after : Frame) :
    Prop where
  abi : after.abi = frame.abi
  size : after.bytes.size = frame.bytes.size
  elsewhere : ∀ b, (∀ e ∈ refs, ∀ s, slots[e.1]? = some s → ¬ s.Covers frame.abi b) →
    after.bytes[b]? = frame.bytes[b]?
  reads : ∀ e ∈ refs, ∀ s x, slots[e.1]? = some s → vm.Held e.2 x →
    ∃ r, after.referenceAt s = .ok r ∧ vm.heap.Denotes r x

theorem Frame.referenceSame {f g : Frame} {s : Slot} (abi : f.abi = g.abi)
    (same : ∀ b, s.Covers f.abi b → f.bytes[b]? = g.bytes[b]?) : f.referenceAt s = g.referenceAt s := by
  unfold referenceAt
  rw [loadSlotSame abi same]

section Fixed

variable {arch : Architecture} {shorty : Shorty} {isStatic : Bool} {refs : List (Nat × Handle)}
  {frame half after : Frame} {e : Nat × Handle}

theorem Boxing.Fixed.skipped {vm : Vm} {slots : List Slot} (fixed : Fixed vm slots refs frame after)
    (none_ : slots[e.1]? = none) : Fixed vm slots (e :: refs) frame after where
  abi := fixed.abi
  size := fixed.size
  elsewhere b away := fixed.elsewhere b fun f mem => away f (.tail _ mem)
  reads f mem s x slot there := by
    rcases List.mem_cons.mp mem with rfl | later
    · cases none_.symm.trans slot
    · exact fixed.reads f later s x slot there

theorem slotsApartAt {i j : Nat} {s t : Slot} (below : i < j) (atI : (slots arch.abi shorty isStatic)[i]? = some s)
    (atJ : (slots arch.abi shorty isStatic)[j]? = some t) (b : Nat) (covers : s.Covers arch.abi b) :
    ¬ t.Covers arch.abi b := by
  obtain ⟨insideI, rfl⟩ := List.getElem?_eq_some_iff.mp atI
  obtain ⟨insideJ, rfl⟩ := List.getElem?_eq_some_iff.mp atJ
  exact List.pairwise_iff_getElem.mp (slotsApart arch.regular arch.spaced shorty isStatic) i j insideI insideJ
    below b covers

theorem Boxing.Fixed.stored {vm : Vm} {s : Slot} {r : Option Ref} {o : Option Nat} (abi : frame.abi = arch.abi)
    (fixed : Fixed vm (slots arch.abi shorty isStatic) refs half after)
    (stored : Frame.Stored frame s (refWord r).toUInt64 half) (before : ∀ f ∈ refs, e.1 < f.1)
    (at_ : (slots arch.abi shorty isStatic)[e.1]? = some s) (held : vm.Held e.2 o) (denotes : vm.heap.Denotes r o) :
    Fixed vm (slots arch.abi shorty isStatic) (e :: refs) frame after := by
  have abi' := stored.abi.trans abi
  refine ⟨fixed.abi.trans stored.abi, fixed.size.trans stored.size, fun b away => ?_, ?_⟩
  · rw [fixed.elsewhere b fun f mem t slot => stored.abi ▸ away f (.tail _ mem) t slot]
    exact stored.elsewhere b (away e (.head _) s at_)
  · intro f mem t x slot there
    rcases List.mem_cons.mp mem with rfl | later
    · cases at_.symm.trans slot
      cases held.one there
      refine ⟨r, (Frame.referenceSame fixed.abi fun b covers => ?_).trans stored.reference, denotes⟩
      rw [fixed.abi, abi'] at covers
      exact fixed.elsewhere b fun g mem u other covered =>
        slotsApartAt (before g mem) at_ other b covers (abi' ▸ covered)
    · exact fixed.reads f later t x slot there

theorem Boxing.fixReferencesEnds (abi : frame.abi = arch.abi)
    (room : Frame.sizeFor arch.abi (slots arch.abi shorty isStatic) ≤ frame.bytes.size)
    (live : ∀ e ∈ refs, ∃ o, w.vm.Held e.2 o) (ordered : refs.Pairwise (·.1 < ·.1)) (faithful : w.lost = none) :
    Step.Ends T (fixReferences frame (slots arch.abi shorty isStatic) refs) w fun after y =>
      y = w ∧ Fixed w.vm (slots arch.abi shorty isStatic) refs frame after := by
  induction refs generalizing frame with
  | nil => exact ⟨rfl, rfl, rfl, fun _ _ => rfl, by simp⟩
  | cons e refs ih =>
    unfold fixReferences
    obtain ⟨o, held⟩ := live e (by simp)
    obtain ⟨before, ordered⟩ := List.pairwise_cons.mp ordered
    refine Step.endsBind.mpr ((resolveEnds held faithful).weaken fun r y resolved => ?_)
    obtain ⟨rfl, denotes⟩ := resolved
    have rest : ∀ e ∈ refs, ∃ o, y.vm.Held e.2 o := fun e mem => live e (by simp [mem])
    cases at_ : (slots arch.abi shorty isStatic)[e.1]? with
    | none => exact (ih abi room rest ordered).weaken fun after z ends => ends.imp_right (·.skipped at_)
    | some s =>
      obtain ⟨half, stored⟩ := Frame.slotStored abi room (List.mem_of_getElem? at_) (refWord r).toUInt64
      have written : frame.storeReference s r = .ok half := stored.stored
      refine Step.endsBind.mpr ((Step.endsExcept written).mpr ?_)
      refine (ih (stored.abi.trans abi) (stored.size ▸ room) rest ordered).weaken fun after z ends => ?_
      exact ends.imp_right (·.stored abi stored before at_ held denotes)

end Fixed
end Detour
