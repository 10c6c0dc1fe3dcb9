import Detour.Proofs.Hook.Discreet
import Detour.Proofs.Hook.Entry

/-! Errors of nested calls. One place holds the error that a trampoline leaves for its caller, at whatever
depth; it is empty whenever a call is entered and whenever one has returned. An error is raised for each
hooked call that fails, and for no other, when that call returns: so the errors of the calls inside it come
before its own. -/
namespace Detour

open World

variable {σ : Type} {w v u x : World σ}

structure Finished (σ : Type) where
  method : MethodAddress
  receiver : Option Ref
  args : List Value
  entered : World σ
  outcome : Option (Except CallError Value)
  result : Except RuntimeError Value
  left : World σ

def raisedFor? : Option (Except CallError Value) → Option CallError
  | some (.error e) => some e
  | _ => none

def Finished.failure? (c : Finished σ) : Option CallError := raisedFor? c.outcome

theorem failuresClosed (calls inner : List (Finished σ)) (c : Finished σ) :
    (calls ++ inner ++ [c]).filterMap Finished.failure? =
      calls.filterMap Finished.failure? ++ inner.filterMap Finished.failure? ++ c.failure?.toList := by
  cases failed : c.failure? <;> simp [failed]

/-- A stretch of a run in which calls nest up to a depth, with its calls in the order in which they return. -/
inductive History (g : Guest σ) : (depth : Nat) → World σ → World σ → List (Finished σ) → Prop
  | rests {depth} (w : World σ) : History g depth w w []
  | works {depth w v x calls} (before : History g depth w v calls) (untouched : Untouched v x) :
    History g depth w x calls
  | enters {depth w v x calls inner m receiver args r} (before : History g (depth + 1) w v calls)
    (plain : v.isHooked m = false) (run : (call g (depth + 1) m receiver args).run v = .ok (r, x))
    (inside : History g depth v x inner) :
    History g (depth + 1) w x (calls ++ inner ++ [⟨m, receiver, args, v, none, r, x⟩])
  | detours {depth w v u x calls inner m receiver args d shorty frame outcome bytes r}
    (before : History g (depth + 1) w v calls) (hooked : v.isHooked m = true)
    (run : (call g (depth + 1) m receiver args).run v = .ok (r, x))
    (framed : Framed v m receiver args d shorty frame)
    (answered : enterHook g (call g depth) (some m) frame.bytes v = .ok ((outcome, bytes), u))
    (inside : History g depth v u inner) :
    History g (depth + 1) w x (calls ++ inner ++ [⟨m, receiver, args, v, outcome, r, x⟩])

inductive Settles (g : Guest σ) (invoke : Invoker σ) (id : Nat) (r : InstalledHook) (frame : Frame)
    (w : World σ) : World σ → Except CallError Value → Prop
  | refused {x e} (boxing : (Boxing.ofFrame frame r.slots r.isStatic
      r.interceptor.settings.emptyArgsArray).run w = .ok (.error e, x)) :
    Settles g invoke id r frame w x (.error (.runtime e))
  | failed {u v x boxed e} (boxing : (Boxing.ofFrame frame r.slots r.isStatic
      r.interceptor.settings.emptyArgsArray).run w = .ok (.ok boxed, u))
    (answer : (r.interceptor.handler.answer g invoke ⟨id, boxed⟩).run u = .ok (.error e, v))
    (released : boxed.release v = .ok ((), x)) : Settles g invoke id r frame w x (.error e)
  | converts {u v x boxed obj outcome} (boxing : (Boxing.ofFrame frame r.slots r.isStatic
      r.interceptor.settings.emptyArgsArray).run w = .ok (.ok boxed, u))
    (answer : (r.interceptor.handler.answer g invoke ⟨id, boxed⟩).run u = .ok (.ok obj, v))
    (conversion : (Boxing.convertResult r.method r.shorty.result obj).run v = .ok (outcome, v))
    (released : boxed.release v = .ok ((), x)) : Settles g invoke id r frame w x outcome

structure Finished.Apart (c : Finished σ) (g : Guest σ) : Prop where
  entered : c.entered.pending = none
  left : c.left.pending = none
  answered : c.outcome.isSome = (c.entered.recordOf c.method).isSome
  fails : ∀ o, c.outcome = some o → ((∃ e, c.result = .error e) ↔ ∃ e, o = .error e)
  settles : ∀ o, c.outcome = some o → ∃ depth d shorty frame id r x,
    Framed c.entered c.method c.receiver c.args d shorty frame ∧
    c.entered.recordOf c.method = some id ∧ c.entered.records[id]? = some r ∧
    Settles g (call g depth) id r ⟨r.interceptor.arch.abi, frame.bytes⟩ c.entered x o

theorem recordOfPlain {m : MethodAddress} (plain : w.isHooked m = false) : w.recordOf m = none := by
  cases found : w.descriptor? m with
  | none => simp [recordOf, found]
  | some d =>
    have other : d.entryPoint ≠ .trampoline := by
      simpa [World.isHooked, found, Descriptor.isHooked] using plain
    simp only [recordOf, found, Option.bind_some, Descriptor.record?]
    split
    next entry _ => exact (other entry).elim
    next => rfl

section Calls

variable {g : Guest σ} {invoke : Invoker σ} {depth : Nat} {m : MethodAddress} {receiver : Option Ref}
  {args : List Value}

theorem answerFrameSettles (id : Nat) (frame : Frame) :
    Step.Ends (fun _ => True) (answerFrame g invoke id frame) w fun p x =>
      ∃ r, w.records[id]? = some r ∧ Settles g invoke id r frame w x p.1 := by
  rw [answerFrameParts]
  refine Step.endsBind.mpr ((recordEnds fun _ => trivial).weaken fun r v ⟨same, found⟩ => ?_)
  subst same
  refine Step.endsBind.mpr ((Step.Ends.ran Step.endsAny).weaken fun b u ⟨boxing, _⟩ => ?_)
  cases b with
  | error e => exact ⟨r, found, .refused boxing⟩
  | ok boxed =>
    refine Step.endsBind.mpr ((Step.Ends.ran Step.endsAny).weaken fun result y ⟨answer, _⟩ => ?_)
    refine Step.endsBind.mpr ((Boxing.looksFixReferences _ _ frame y).weaken fun frame z same => ?_)
    subst same
    refine Step.endsBind.mpr ((Step.Ends.ran (looksConvertOutcome r result z)).weaken
      fun outcome y ⟨conversion, same⟩ => ?_)
    subst same
    refine Step.endsBind.mpr ((Step.Ends.ran Step.endsAny).weaken fun _ x ⟨released, _⟩ => ?_)
    refine ⟨r, found, ?_⟩
    cases result with
    | error e =>
      cases conversion
      exact .failed boxing answer released
    | ok obj => exact .converts boxing answer conversion released

theorem enterHookSettles (bytes : Array UInt8) :
    Step.Ends (fun _ => True) (enterHook g invoke (some m) bytes) w fun p x =>
      p.1.isSome = (w.recordOf m).isSome ∧ ∀ o, p.1 = some o → ∃ id r, w.recordOf m = some id ∧
        w.records[id]? = some r ∧ Settles g invoke id r ⟨r.interceptor.arch.abi, bytes⟩ w x o := by
  refine Step.endsBind.mpr ?_
  rw [Step.endsGet]
  simp only [Option.bind_some]
  cases recorded : w.recordOf m with
  | none => exact ⟨rfl, fun o is => nomatch is⟩
  | some id =>
    refine Step.endsBind.mpr ((recordEnds fun _ => trivial).weaken fun r v ⟨same, found⟩ => ?_)
    subst same
    refine Step.endsBind.mpr ((answerFrameSettles id _).weaken fun p x ⟨r', again, settles⟩ => ?_)
    cases found.symm.trans again
    exact ⟨rfl, fun o is => by cases is; exact ⟨id, r, rfl, found, settles⟩⟩

theorem delivered {outcome : Option (Except CallError Value)} {bytes after : Array UInt8} {declared : Tag}
    (answered : enterHook g invoke (some m) bytes v = .ok ((outcome, after), u)) (clear : u.pending = none) :
    Step.Ends (fun _ => True) (trampoline g invoke m bytes >>= deliver declared) v fun r x =>
      x.pending = none ∧ x.raised = u.raised ++ (raisedFor? outcome).toList ∧
        ((∃ f, r = .error f) ↔ ∃ e, outcome = some (.error e)) := by
  have passes (raw : UInt64) : Step.Ends (fun _ => True) (deliver declared raw) u fun r x =>
      x.pending = none ∧ x.raised = u.raised ++ [] ∧ ∃ a, r = .ok a := by
    refine Step.endsBind.mpr (Step.endsBind.mpr ?_)
    simp only [Step.endsGet, Step.endsBind, Step.endsSet, Step.endsPure, clear, List.append_nil]
    exact ⟨trivial, trivial, _, rfl⟩
  have run : (trampoline g invoke m bytes >>= deliver declared) v =
      outcome.elim (deliver declared 0) (handOver declared) u := by
    unfold trampoline
    rw [bind_assoc, Step.bindRun answered]
    cases outcome with
    | none => rfl
    | some o => cases o <;> rfl
  unfold Step.Ends
  rw [run]
  cases outcome with
  | none =>
    refine (passes 0).weaken ?_
    rintro r x ⟨left, raised, a, rfl⟩
    exact ⟨left, raised, by simp⟩
  | some o =>
    cases o with
    | ok o =>
      refine (passes o.toRaw).weaken ?_
      rintro r x ⟨left, raised, a, rfl⟩
      exact ⟨left, raised, by simp⟩
    | error e =>
      dsimp only [Option.elim]
      rw [handOverError]
      refine Step.endsBind.mpr ((managedExceptionCalm trivial e _).weaken fun f x calm => ?_)
      have untouched := Untouched.served calm
      exact ⟨untouched.pending, untouched.raised, by simp⟩

theorem History.trans {before after : List (Finished σ)} (first : History g depth w v before)
    (second : History g depth v x after) : History g depth w x (before ++ after) := by
  induction second with
  | rests => simpa using first
  | works _ untouched ih => exact (ih first).works untouched
  | enters _ plain run inside ih => simpa using (ih first).enters plain run inside
  | detours _ hooked run framed answered inside ih =>
    simpa using (ih first).detours hooked run framed answered inside

theorem History.apart {calls : List (Finished σ)} (history : History g depth w x calls)
    (clear : w.pending = none) :
    x.pending = none ∧ x.raised = w.raised ++ calls.filterMap Finished.failure? ∧
      ∀ c ∈ calls, c.Apart g := by
  -- What a call holds inside it is a history of its own, one level down, which starts where the call is entered.
  induction history with
  | rests => exact ⟨clear, by simp, by simp⟩
  | works _ untouched ih =>
    obtain ⟨pending, raised, apart⟩ := ih clear
    exact ⟨untouched.pending.trans pending, untouched.raised.trans raised, apart⟩
  | @enters depth w v x calls inner m receiver args r _ plain run _ ih again =>
    obtain ⟨entered, raised, apart⟩ := ih clear
    obtain ⟨left, more, within⟩ := again entered
    have unrecorded := recordOfPlain plain
    refine ⟨left, by rw [failuresClosed, more, raised]; simp [Finished.failure?, raisedFor?], fun c mem => ?_⟩
    simp only [List.mem_append, List.mem_singleton] at mem
    obtain (before | inside) | rfl := mem
    · exact apart c before
    · exact within c inside
    · exact ⟨entered, left, by simp [unrecorded], by simp, by simp⟩
  | @detours depth w v u x calls inner m receiver args d shorty frame outcome bytes r _ hooked run framed
      answered _ ih again =>
    obtain ⟨entered, raised, apart⟩ := ih clear
    obtain ⟨pending, more, within⟩ := again entered
    rw [callParts, if_pos hooked, framed.run] at run
    obtain ⟨left, grown, fails⟩ := (delivered answered pending).result run
    obtain ⟨recorded, settles⟩ := (enterHookSettles frame.bytes).result answered
    refine ⟨left, by rw [failuresClosed, grown, more, raised]; simp [Finished.failure?], fun c mem => ?_⟩
    simp only [List.mem_append, List.mem_singleton] at mem
    obtain (before | inside) | rfl := mem
    · exact apart c before
    · exact within c inside
    · refine ⟨entered, left, recorded, fun o is => ?_, fun o is => ?_⟩
      · rw [fails, show outcome = some o from is]
        simp
      · obtain ⟨id, k, known, found, how⟩ := settles o is
        exact ⟨depth, d, shorty, frame, id, k, u, framed, known, found, how⟩

theorem Behaves.history (calls : ∀ m receiver args w r x, (call g depth m receiver args).run w = .ok (r, x) →
      ∃ calls outcome, History g depth w x (calls ++ [⟨m, receiver, args, w, outcome, r, x⟩]))
    (behaves : Behaves (call g depth) w x) : ∃ calls, History g depth w x calls := by
  induction behaves with
  | rests => exact ⟨[], .rests w⟩
  | works _ untouched ih =>
    obtain ⟨calls, history⟩ := ih
    exact ⟨calls, history.works untouched⟩
  | calls _ run ih =>
    obtain ⟨before, history⟩ := ih
    obtain ⟨_, _, more⟩ := calls _ _ _ _ _ _ run
    exact ⟨_, history.trans more⟩

end Calls

namespace Sample

end Sample

end Detour
