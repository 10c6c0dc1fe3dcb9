import Detour.Proofs.Hook.Session
import Mathlib.Data.List.Induction

/-! A call that callbacks surround, told turn by turn: which callbacks ran, what each was given and what it
left, and how the outcome came about. The course of a chain always has such a telling. A callback that fails
has its receiver and its arguments kept, but not its outcome. -/
namespace Detour

open World

variable {σ : Type} {p : Rights σ} {n : Nat} {w x : World σ}

abbrev Standing := Except CallError (Option Nat)

namespace SharedCall

variable {s : SharedCall} {r : Option Ref}

theorem answerWithMarks : Step.Ends (fun _ => True) (s.answerWith r) w fun t _ =>
    t.failure = none ∧ t.settled = true :=
  Step.endsBind.mpr (Step.endsAny.weaken fun _ _ _ => ⟨rfl, rfl⟩)

theorem failWithMarks {e : CallError} : Step.Ends (fun _ => True) (s.failWith e) w fun t _ =>
    t.failure = some e ∧ t.settled = true :=
  Step.endsBind.mpr (Step.endsAny.weaken fun _ _ _ => ⟨rfl, rfl⟩)

theorem clearOutcomeMarks : Step.Ends (fun _ => True) s.clearOutcome w fun t _ =>
    t.failure = none ∧ t.settled = false :=
  Step.endsBind.mpr (Step.endsAny.weaken fun _ _ _ => ⟨rfl, rfl⟩)

theorem rollBackMarks {last : SavedOutcome} : Step.Ends (fun _ => True) (s.rollBack last) w fun t _ =>
    t.failure = last.failure :=
  Step.endsBind.mpr (Step.endsAny.weaken fun _ _ _ => rfl)

theorem withResultMarks : Step.Ends (fun _ => True) (s.withResult r) w fun t _ =>
    t.failure = s.failure ∧ t.settled = s.settled := by
  refine (withResultEnds (fun _ _ _ => trivial) fun _ => trivial).weaken fun t _ ⟨is, _⟩ => ?_
  rw [is]
  exact ⟨rfl, rfl⟩

theorem replaceReceiverMarks : Step.Ends (fun _ => True) (s.replaceReceiver r) w fun t _ =>
    t.failure = s.failure ∧ t.settled = s.settled := by
  refine (replaceReceiverEnds (fun _ _ _ => trivial) fun _ => trivial).weaken fun t _ ⟨is, _⟩ => ?_
  rw [is]
  exact ⟨rfl, rfl⟩

theorem replaceArgumentMarks {index : Nat} : Step.Ends (fun _ => True) (s.replaceArgument index r) w
    fun t _ => t.failure = s.failure ∧ t.settled = s.settled := by
  cases at_ : s.args[index]? with
  | none =>
    rw [replaceArgumentPast at_]
    exact ⟨rfl, rfl⟩
  | some old =>
    refine (replaceArgumentEnds at_ (fun _ _ _ => trivial) fun _ => trivial).weaken fun t _ ⟨is, _⟩ => ?_
    rw [is]
    exact ⟨rfl, rfl⟩

end SharedCall

namespace Chain

inductive Sets (p : Rights σ) (n : Nat) (s : SharedCall) (w : World σ) (a : View) :
    Option Standing → SharedCall → World σ → View → Prop
  | refl : Sets p n s w a none s w a
  | runs {o t v b x} (before : Sets p n s w a o t v b) (leads : Leads p n v x)
    (spares : ∀ h ∈ t.handles, Spares p h v x) : Sets p n s w a o t x b
  | receives {o t v b t' x r y} (before : Sets p n s w a o t v b) (denotes : v.vm.heap.Denotes r y)
    (set : t.replaceReceiver r v = .ok (t', x)) : Sets p n s w a o t' x { b with receiver := y }
  | replaces {o t v b t' x index r y} (before : Sets p n s w a o t v b) (denotes : v.vm.heap.Denotes r y)
    (set : t.replaceArgument index r v = .ok (t', x)) :
    Sets p n s w a o t' x { b with args := b.args.set index y }
  | answers {o t v b t' x r y} (before : Sets p n s w a o t v b) (denotes : v.vm.heap.Denotes r y)
    (set : t.answerWith r v = .ok (t', x)) : Sets p n s w a (some (.ok y)) t' x { b with result := y }
  | fails {o t v b t' x e} (before : Sets p n s w a o t v b) (set : t.failWith e v = .ok (t', x)) :
    Sets p n s w a (some (.error e)) t' x { b with result := none }

theorem Sets.ofEdits {s t : SharedCall} {a b : View} (edits : Edits p n s w a t x b) :
    ∃ o, Sets p n s w a o t x b := by
  induction edits with
  | refl => exact ⟨none, .refl⟩
  | runs _ leads spares ih => exact ih.imp fun _ before => .runs before leads spares
  | receives _ denotes set ih => exact ih.imp fun _ before => .receives before denotes set
  | replaces _ denotes set ih => exact ih.imp fun _ before => .replaces before denotes set
  | answers _ denotes set ih => exact ⟨_, .answers ih.choose_spec denotes set⟩
  | fails _ set ih => exact ⟨_, .fails ih.choose_spec set⟩

structure Point (σ : Type) where
  view : SharedCall
  world : World σ
  shown : View

def Point.Shows (q : Point σ) : Standing → Prop
  | .ok k => q.view.failure = none ∧ q.shown.result = k
  | .error e => q.view.failure = some e ∧ q.shown.result = none

def Point.put (q : Point σ) : Standing → Point σ
  | .ok k => { q with view.failure := none, shown.result := k }
  | .error e => { q with view.failure := some e, shown.result := none }

structure Carries (q r : Point σ) : Prop where
  handled : Handled q.world r.world
  shown : r.shown = q.shown
  failure : r.view.failure = q.view.failure

structure Turn (σ : Type) where
  callback : Callback
  given : Point σ
  returned : Except CallError Unit
  set : Option Standing
  left : Point σ

namespace Turn

structure Takes (p : Rights σ) (code : Nat → Invoker σ → CallbackCode σ) (invoke : Invoker σ) (t : Turn σ) :
    Prop where
  run : code t.callback.id invoke t.given.view t.given.world = .ok ((t.returned, t.left.view), t.left.world)
  sets : Sets p t.given.world.vm.handles.next t.given.view t.given.world t.given.shown
    t.set t.left.view t.left.world t.left.shown
  given : t.given.view.Gives t.given.shown t.given.world
  left : t.left.view.Gives t.left.shown t.left.world

def establishes (t : Turn σ) : Option Standing :=
  match t.returned with
  | .ok () => t.set
  | .error _ => none

def onward (t : Turn σ) : Point σ :=
  match t.returned with
  | .ok () => t.left
  | .error _ =>
    { t.left with view.failure := t.given.view.failure, shown.result := t.given.shown.result }

end Turn

def standing (before : Standing) (turns : List (Turn σ)) : Standing :=
  turns.foldl (fun last t => t.establishes.getD last) before

inductive Path (q : Point σ) : List (Turn σ) → Point σ → Prop
  | start {r} (carries : Carries q r) : Path q [] r
  | turn {turns r t z} (before : Path q turns r) (given : Carries r t.given) (onward : Carries t.onward z) :
    Path q (turns ++ [t]) z

structure Proceeding (σ : Type) where
  given : Point σ
  receiver : Option Ref
  args : List (Option Ref)
  returned : Except CallError (Option Ref)
  result : Option Nat
  left : World σ

namespace Proceeding

structure Takes (i : HookedCall) (invoke : Invoker σ) (o : Proceeding σ) : Prop where
  receiver : o.given.world.vm.heap.Denotes o.receiver o.given.shown.receiver
  args : List.Forall₂ o.given.world.vm.heap.Denotes o.args o.given.shown.args
  run : (i.proceed invoke o.receiver o.args).run o.given.world = .ok (o.returned, o.left)
  denotes : ∀ r, o.returned = .ok r → o.left.vm.heap.Denotes r o.result

def standing (o : Proceeding σ) : Standing := o.returned.map fun _ => o.result

def onward (o : Proceeding σ) : Point σ := { o.given with world := o.left }.put o.standing

end Proceeding

inductive Across (i : HookedCall) (invoke : Invoker σ) (q : Point σ) : Option (Proceeding σ) → Point σ → Prop
  | skips {r} (carries : Carries q r) : Across i invoke q none r
  | calls {o r} (given : Carries q o.given) (takes : o.Takes i invoke) (onward : Carries o.onward r) :
    Across i invoke q (some o) r

structure Chronicle (σ : Type) where
  start : Point σ
  befores : List (Turn σ)
  reached : Point σ
  call : Option (Proceeding σ)
  resumed : Point σ
  afters : List (Turn σ)
  finish : Point σ

def Chronicle.verdict (c : Chronicle σ) : Standing :=
  match c.call with
  | some o => o.standing
  | none => standing (.ok none) c.befores

structure Starts (i : HookedCall) (u : World σ) (q : Point σ) : Prop where
  handled : Handled u q.world
  receiver : ∃ r, i.receiver u = .ok (r, u) ∧ u.vm.heap.Denotes r q.shown.receiver
  args : ∃ rs, i.arguments u = .ok (rs, u) ∧ List.Forall₂ u.vm.heap.Denotes rs q.shown.args
  empty : q.Shows (.ok none)

/-- The telling of a call that began in `u`. The callbacks `left` have their turn after the call still to
come. -/
structure Chronicle.Tells (p : Rights σ) (g : Guest σ) (invoke : Invoker σ) (i : HookedCall)
    (hooks : List Callback) (u : World σ) (left : List Callback) (c : Chronicle σ) : Prop where
  starts : Starts i u c.start
  befores : ∀ t ∈ c.befores, t.Takes p g.before invoke
  afters : ∀ t ∈ c.afters, t.Takes p g.after invoke
  listed : ∃ skipped, c.befores.map Turn.callback ++ skipped = hooks ∧ (c.call.isSome = true → skipped = [])
  undecided : ∀ t ∈ c.befores.dropLast, t.establishes = none
  called : c.call.isSome = true ↔ ∀ t ∈ c.befores, t.establishes = none
  reversed : c.afters.map Turn.callback ++ left = (c.befores.map Turn.callback).reverse
  before : Path c.start c.befores c.reached
  across : Across i invoke c.reached c.call c.resumed
  after : Path c.resumed c.afters c.finish

variable {q r z : Point σ} {st : Standing} {turns : List (Turn σ)} {t : Turn σ} {invoke : Invoker σ}
  {code : Nat → Invoker σ → CallbackCode σ}

/-! ## What the points show -/

theorem Point.Shows.same (shows_ : q.Shows st) (failure : r.view.failure = q.view.failure)
    (result : r.shown.result = q.shown.result) : r.Shows st := by
  cases st with
  | ok k => exact ⟨failure.trans shows_.1, result.trans shows_.2⟩
  | error e => exact ⟨failure.trans shows_.1, result.trans shows_.2⟩

theorem Sets.shows {s t : SharedCall} {a b : View} {o : Option Standing}
    (sets : Sets p n s w a o t x b) (given : Point.Shows ⟨s, w, a⟩ st) :
    Point.Shows ⟨t, x, b⟩ (o.getD st) ∧ t.settled = (s.settled || o.isSome) := by
  induction sets with
  | refl => exact ⟨given, by simp⟩
  | runs _ _ _ ih => exact ⟨ih.1.same rfl rfl, ih.2⟩
  | receives _ _ set ih =>
    have marks := (SharedCall.replaceReceiverMarks).result set
    exact ⟨ih.1.same marks.1 rfl, marks.2.trans ih.2⟩
  | replaces _ _ set ih =>
    have marks := (SharedCall.replaceArgumentMarks).result set
    exact ⟨ih.1.same marks.1 rfl, marks.2.trans ih.2⟩
  | answers _ _ set =>
    have marks := (SharedCall.answerWithMarks).result set
    exact ⟨⟨marks.1, rfl⟩, by simp [marks.2]⟩
  | fails _ set =>
    have marks := (SharedCall.failWithMarks).result set
    exact ⟨⟨marks.1, rfl⟩, by simp [marks.2]⟩

theorem Point.putShows : (q.put st).Shows st := by
  cases st <;> exact ⟨rfl, rfl⟩

theorem Carries.refl (q : Point σ) : Carries q q := ⟨.refl _, rfl, rfl⟩

theorem Carries.saved {s : SharedCall} {v : World σ} {a : View} {last : SharedCall.SavedOutcome}
    (save : s.saveOutcome w = .ok (last, v)) : Carries ⟨s, w, a⟩ ⟨s, v, a⟩ :=
  ⟨(Handles.saveOutcome s w).result save, rfl, rfl⟩

theorem Carries.shows (carries : Carries q r) (shows_ : q.Shows st) : r.Shows st :=
  shows_.same carries.failure (congrArg View.result carries.shown)

namespace Turn

theorem Takes.shows (takes : t.Takes p code invoke) (given : t.given.Shows st) :
    t.left.Shows (t.set.getD st) :=
  (takes.sets.shows given).1

theorem Takes.onwardShows (takes : t.Takes p code invoke) (given : t.given.Shows st) :
    t.onward.Shows (t.establishes.getD st) := by
  unfold onward establishes
  cases t.returned with
  | ok => exact takes.shows given
  | error e => exact given.same rfl rfl

theorem Takes.settles (takes : t.Takes p code invoke) (given : t.given.Shows st)
    (open_ : t.given.view.settled = false) : t.left.view.settled = true ↔ t.set ≠ none := by
  rw [(takes.sets.shows given).2, open_, Bool.false_or, Option.isSome_iff_ne_none]

section Failed

variable {h : Callback} {o : Option Standing} {s t t' : SharedCall} {v : World σ} {a b : View} {e : CallError}

theorem forgotten (empty : Point.Shows ⟨s, w, a⟩ (.ok none)) (clear : t.clearOutcome x = .ok (t', v)) :
    Carries (onward ⟨h, ⟨s, w, a⟩, .error e, o, ⟨t, x, b⟩⟩) ⟨t', v, { b with result := none }⟩ := by
  obtain ⟨clean, none_⟩ : s.failure = none ∧ a.result = none := empty
  obtain ⟨failure, _⟩ := SharedCall.clearOutcomeMarks.result clear
  refine ⟨(Handles.clearOutcome t x).result clear, ?_, failure.trans clean.symm⟩
  change { b with result := none } = { b with result := a.result }
  rw [none_]

theorem rolledBack {last : SharedCall.SavedOutcome} (saved : last.failure = s.failure)
    (back : t.rollBack last x = .ok (t', v)) :
    Carries (onward ⟨h, ⟨s, w, a⟩, .error e, o, ⟨t, x, b⟩⟩) ⟨t', v, { b with result := a.result }⟩ :=
  ⟨(Handles.rollBack t last x).result back, rfl, (SharedCall.rollBackMarks.result back).trans saved⟩

end Failed

end Turn

theorem Proceeding.settled {s t : SharedCall} {v : World σ} {a : View} {r : Option Ref} {rs : List (Option Ref)}
    {outcome : Except CallError (Option Ref)} {y : Option Nat} (empty : Point.Shows ⟨s, w, a⟩ (.ok none))
    (settle : s.settle outcome x = .ok (t, v)) :
    Carries (onward ⟨⟨s, w, a⟩, r, rs, outcome, y, x⟩) ⟨t, v, a.settle y outcome⟩ := by
  obtain ⟨clean, none_⟩ : s.failure = none ∧ a.result = none := empty
  have handled := (Handles.settle s outcome x).result settle
  cases outcome with
  | ok obj => exact ⟨handled, rfl, (SharedCall.withResultMarks.result settle).1.trans clean⟩
  | error e =>
    cases settle
    refine ⟨handled, ?_, rfl⟩
    change a = { a with result := none }
    rw [← none_]

theorem standingUndecided (undecided : ∀ t ∈ turns, t.establishes = none) : standing st turns = st := by
  induction turns with
  | nil => rfl
  | cons t turns ih =>
    have none_ : t.establishes = none := undecided t (List.mem_cons_self ..)
    unfold standing at ih ⊢
    rw [List.foldl_cons, none_]
    exact ih fun t mem => undecided t (List.mem_cons_of_mem _ mem)

theorem standingLast : standing st (turns ++ [t]) = t.establishes.getD (standing st turns) := by
  simp [standing]

namespace Path

theorem last (path : Path q (turns ++ [t]) z) : ∃ r, Path q turns r ∧ Carries r t.given ∧ Carries t.onward z := by
  generalize is : turns ++ [t] = all at path
  cases path with
  | start => simp at is
  | turn before given onward =>
    obtain ⟨rfl, last⟩ := List.append_inj' is rfl
    cases last
    exact ⟨_, before, given, onward⟩

theorem shows (path : Path q turns z) (takes : ∀ t ∈ turns, t.Takes p code invoke) (start : q.Shows st) :
    z.Shows (standing st turns) := by
  induction path with
  | start carries => exact carries.shows start
  | @turn turns r t z before given onward ih =>
    have earlier := ih fun t mem => takes t (List.mem_append_left _ mem)
    have takes : t.Takes p code invoke := takes t (by simp)
    rw [standingLast]
    exact onward.shows (takes.onwardShows (given.shows earlier))

theorem reaches {earlier later : List (Turn σ)} (path : Path q (earlier ++ t :: later) z) :
    ∃ r, Path q earlier r ∧ Carries r t.given := by
  induction later using List.reverseRecOn generalizing z with
  | nil =>
    obtain ⟨r, before, given, _⟩ := path.last
    exact ⟨r, before, given⟩
  | append_singleton later t' ih =>
    rw [← List.cons_append, ← List.append_assoc] at path
    obtain ⟨r, before, _⟩ := path.last
    exact ih before

theorem given {earlier later : List (Turn σ)} (path : Path q (earlier ++ t :: later) z)
    (takes : ∀ t ∈ earlier, t.Takes p code invoke) (start : q.Shows st) :
    t.given.Shows (standing st earlier) := by
  obtain ⟨r, before, given⟩ := path.reaches
  exact given.shows (before.shows takes start)

end Path

namespace Chronicle.Tells

variable {g : Guest σ} {i : HookedCall} {hooks left : List Callback} {u : World σ} {c : Chronicle σ}

theorem reached (tells : c.Tells p g invoke i hooks u left) :
    c.reached.Shows (standing (.ok none) c.befores) :=
  tells.before.shows tells.befores tells.starts.empty

theorem resumed (tells : c.Tells p g invoke i hooks u left) : c.resumed.Shows c.verdict := by
  have across := tells.across
  unfold verdict
  cases is : c.call with
  | none =>
    rw [is] at across
    cases across with
    | skips carries => exact carries.shows tells.reached
  | some o =>
    rw [is] at across
    cases across with
    | calls given takes onward => exact onward.shows Point.putShows

theorem finish (tells : c.Tells p g invoke i hooks u left) : c.finish.Shows (standing c.verdict c.afters) :=
  tells.after.shows tells.afters tells.resumed

end Chronicle.Tells

/-! ## Every course can be told -/

section Told

variable {g : Guest σ} {i : HookedCall} {hooks : List Callback} {u : World σ}

structure Preceding (p : Rights σ) (g : Guest σ) (invoke : Invoker σ) (i : HookedCall)
    (hooks : List Callback) (u : World σ) (left ran : List Callback) (q start : Point σ)
    (turns : List (Turn σ)) : Prop where
  starts : Starts i u start
  takes : ∀ t ∈ turns, t.Takes p g.before invoke
  undecided : ∀ t ∈ turns, t.establishes = none
  names : turns.map Turn.callback = ran.reverse
  listed : ran.reverse ++ left = hooks
  path : Path start turns q
  settled : q.view.settled = false

def Told (p : Rights σ) (g : Guest σ) (invoke : Invoker σ) (i : HookedCall) (hooks : List Callback)
    (u : World σ) (q : Point σ) : Stage → Prop
  | .befores left ran => ∃ start turns, Preceding p g invoke i hooks u left ran q start turns
  | .afters left => ∃ c, Chronicle.Tells p g invoke i hooks u left c ∧ c.finish = q

namespace Preceding

variable {left ran : List Callback} {start : Point σ} {h : Callback}

theorem empty (preceding : Preceding p g invoke i hooks u left ran q start turns) : q.Shows (.ok none) := by
  have shows_ := preceding.path.shows preceding.takes preceding.starts.empty
  rwa [standingUndecided preceding.undecided] at shows_

theorem further (preceding : Preceding p g invoke i hooks u (h :: left) ran q start turns)
    (callback : t.callback = h) (given : t.given = q) (takes : t.Takes p g.before invoke)
    (undecided : t.establishes = none) (onward : Carries t.onward r) (settled : r.view.settled = false) :
    Preceding p g invoke i hooks u left (h :: ran) r start (turns ++ [t]) where
  starts := preceding.starts
  takes := by simpa [or_imp, forall_and] using ⟨preceding.takes, takes⟩
  undecided := by simpa [or_imp, forall_and] using ⟨preceding.undecided, undecided⟩
  names := by simp [preceding.names, callback]
  listed := by simpa using preceding.listed
  path := .turn preceding.path (given ▸ .refl q) onward
  settled := settled

theorem decided (preceding : Preceding p g invoke i hooks u (h :: left) ran q start turns)
    (callback : t.callback = h) (given : t.given = q) (takes : t.Takes p g.before invoke)
    (decides : t.establishes ≠ none) (onward : Carries t.onward r) :
    Chronicle.Tells p g invoke i hooks u (h :: ran) ⟨start, turns ++ [t], r, none, r, [], r⟩ where
  starts := preceding.starts
  befores := by simpa [or_imp, forall_and] using ⟨preceding.takes, takes⟩
  afters := by simp
  listed := ⟨left, by simpa [preceding.names, callback] using preceding.listed, by simp⟩
  undecided := by simpa using preceding.undecided
  called := by simpa using .inr decides
  reversed := by simp [preceding.names, callback]
  before := .turn preceding.path (given ▸ .refl q) onward
  across := .skips (.refl r)
  after := .start (.refl r)

theorem proceeds {o : Proceeding σ} (preceding : Preceding p g invoke i hooks u [] ran q start turns)
    (given : o.given = q) (takes : o.Takes i invoke) (onward : Carries o.onward r) :
    Chronicle.Tells p g invoke i hooks u ran ⟨start, turns, q, some o, r, [], r⟩ where
  starts := preceding.starts
  befores := preceding.takes
  afters := by simp
  listed := ⟨[], by simpa [preceding.names] using preceding.listed, by simp⟩
  undecided t mem := preceding.undecided t (List.dropLast_subset _ mem)
  called := by simpa using preceding.undecided
  reversed := by simp [preceding.names]
  before := preceding.path
  across := .calls (given ▸ .refl q) takes onward
  after := .start (.refl r)

end Preceding

theorem Chronicle.Tells.further {h : Callback} {left : List Callback} {c : Chronicle σ}
    (tells : c.Tells p g invoke i hooks u (h :: left)) (callback : t.callback = h)
    (takes : t.Takes p g.after invoke) (given : Carries c.finish t.given) (onward : Carries t.onward r) :
    Tells p g invoke i hooks u left { c with afters := c.afters ++ [t], finish := r } :=
  { tells with
    afters := by simpa [or_imp, forall_and] using ⟨tells.afters, takes⟩
    reversed := by simpa [callback] using tells.reversed
    after := .turn tells.after given onward }

theorem Session.takesBefore {h : Callback} {rest ran : List Callback} {s t : SharedCall} {a b : View}
    (steady : Steady p u) (respects : Invoker.Respects p invoke)
    (at_ : Session p g invoke i hooks u (.befores (h :: rest) ran) s w a) (returned : Except CallError Unit)
    (run : g.before h.id invoke s w = .ok ((returned, t), x)) (edits : Edits p w.vm.handles.next s w a t x b) :
    ∃ o, Turn.Takes p g.before invoke ⟨h, ⟨s, w, a⟩, returned, o, ⟨t, x, b⟩⟩ := by
  obtain ⟨o, sets⟩ := Sets.ofEdits edits
  exact ⟨o, run, sets, (Inside.before at_ .refl).gives steady respects,
    (Inside.before at_ edits).gives steady respects⟩

theorem Session.takesAfter {h : Callback} {rest : List Callback} {s t : SharedCall} {v : World σ} {a b : View}
    {last : SharedCall.SavedOutcome} (steady : Steady p u) (respects : Invoker.Respects p invoke)
    (at_ : Session p g invoke i hooks u (.afters (h :: rest)) s w a) (save : s.saveOutcome w = .ok (last, v))
    (returned : Except CallError Unit) (run : g.after h.id invoke s v = .ok ((returned, t), x))
    (edits : Edits p v.vm.handles.next s v a t x b) :
    ∃ o, Turn.Takes p g.after invoke ⟨h, ⟨s, v, a⟩, returned, o, ⟨t, x, b⟩⟩ := by
  obtain ⟨o, sets⟩ := Sets.ofEdits edits
  exact ⟨o, run, sets, (Inside.after at_ save .refl).gives steady respects,
    (Inside.after at_ save edits).gives steady respects⟩

theorem Session.takesCall {ran : List Callback} {s : SharedCall} {a : View} {r : Option Ref}
    {rs : List (Option Ref)} {outcome : Except CallError (Option Ref)} {y : Option Nat} (steady : Steady p u)
    (respects : Invoker.Respects p invoke) (at_ : Session p g invoke i hooks u (.befores [] ran) s w a)
    (receiver : s.receiverRef w = .ok (r, w)) (args : s.argRefs w = .ok (rs, w))
    (run : (i.proceed invoke r rs).run w = .ok (outcome, x))
    (denotes : ∀ r, outcome = .ok r → x.vm.heap.Denotes r y) :
    Proceeding.Takes i invoke ⟨⟨s, w, a⟩, r, rs, outcome, y, x⟩ := by
  have holds := at_.holds steady respects
  have gives := holds.sees.gives (steady.leads holds.shared.within.leads).lost
  obtain ⟨r', received, there⟩ := gives.receiver
  obtain ⟨rs', given, all⟩ := gives.args
  cases receiver.symm.trans received
  cases args.symm.trans given
  exact ⟨there, all, run, denotes⟩

theorem Session.told {stage : Stage} {s : SharedCall} {a : View} (steady : Steady p u)
    (respects : Invoker.Respects p invoke) (at_ : Session p g invoke i hooks u stage s w a) :
    Told p g invoke i hooks u ⟨s, w, a⟩ stage := by
  -- Until the call is decided its telling is open at the end, and each turn is added to it; the turn that
  -- decides it, or the call, closes it, and those after the call are added at its finish.
  induction at_ with
  | @starts m rs r s w ys y _ arguments denote receiver denotes made =>
    obtain ⟨_, open_, clear, _⟩ := (SharedCall.Sees.create (T := fun _ => True) m denotes denote).result made
    have handled := (Handles.createView m r rs u).result made
    have starts : Starts i u ⟨s, w, ⟨y, ys, none⟩⟩ :=
      ⟨handled, ⟨r, receiver, denotes⟩, ⟨rs, arguments, denote⟩, clear, rfl⟩
    exact ⟨_, [], starts, by simp, by simp, rfl, rfl, .start (.refl _), open_⟩
  | goesOn at_ run edits open_ ih =>
    obtain ⟨start, turns, preceding⟩ := ih
    obtain ⟨o, takes⟩ := at_.takesBefore steady respects _ run edits
    have settles := takes.settles preceding.empty preceding.settled
    have undecided : o = none := by simpa [open_] using settles
    exact ⟨start, _, preceding.further rfl rfl takes undecided (.refl _) open_⟩
  | decides at_ run edits settled ih =>
    obtain ⟨start, turns, preceding⟩ := ih
    obtain ⟨o, takes⟩ := at_.takesBefore steady respects _ run edits
    have decides := (takes.settles preceding.empty preceding.settled).mp settled
    exact ⟨_, preceding.decided rfl rfl takes decides (.refl _), rfl⟩
  | forgets at_ run edits clear ih =>
    obtain ⟨start, turns, preceding⟩ := ih
    obtain ⟨o, takes⟩ := at_.takesBefore steady respects _ run edits
    have settled := (SharedCall.clearOutcomeMarks.result clear).2
    exact ⟨start, _, preceding.further rfl rfl takes rfl (Turn.forgotten preceding.empty clear) settled⟩
  | proceeds at_ receiver args run denotes settle ih =>
    obtain ⟨start, turns, preceding⟩ := ih
    have takes := at_.takesCall steady respects receiver args run denotes
    exact ⟨_, preceding.proceeds rfl takes (Proceeding.settled preceding.empty settle), rfl⟩
  | @keeps h rest s w a last v t x b z at_ save run edits release ih =>
    obtain ⟨c, tells, finish⟩ := ih
    obtain ⟨o, takes⟩ := at_.takesAfter steady respects save _ run edits
    have onward : Carries (Turn.onward ⟨h, ⟨s, v, a⟩, .ok (), o, ⟨t, x, b⟩⟩) ⟨t, z, b⟩ :=
      ⟨(Handles.releaseHandle last.result x).result release, rfl, rfl⟩
    exact ⟨_, tells.further rfl takes (finish ▸ .saved save) onward, rfl⟩
  | rollsBack at_ save run edits back ih =>
    obtain ⟨c, tells, finish⟩ := ih
    obtain ⟨o, takes⟩ := at_.takesAfter steady respects save _ run edits
    have holds := at_.holds steady respects
    have saved := (holds.saved (steady.leads holds.shared.within.leads).lost save).2.2.1
    exact ⟨_, tells.further rfl takes (finish ▸ .saved save) (Turn.rolledBack saved back), rfl⟩

end Told
end Chain
end Detour
