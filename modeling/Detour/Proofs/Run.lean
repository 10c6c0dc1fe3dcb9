import Detour.Step
import Mathlib.Tactic.Common

/-! What a run comes to: a tolerated fault, or a result and a state as a postcondition asks. The laws say
how that is read off the parts of a computation, so a proof about a computation goes along its text. -/
namespace Detour

namespace Step

variable {s t α β : Type} {T : Fault → Prop}

def Ends (T : Fault → Prop) (c : Step s α) (w : s) (post : α → s → Prop) : Prop :=
  match c w with
  | .error f => T f
  | .ok (a, x) => post a x

variable {c : Step s α} {w : s} {post wanted : α → s → Prop}

theorem endsAny : Ends (fun _ => True) c w fun _ _ => True := by
  unfold Ends
  split <;> trivial

theorem Ends.weaken (ends : Ends T c w post) (weaker : ∀ a x, post a x → wanted a x) :
    Ends T c w wanted := by
  unfold Ends at ends ⊢
  split
  next run => simpa [run] using ends
  next a x run => exact weaker a x (by simpa [run] using ends)

theorem Ends.result {a x} (ends : Ends T c w post) (run : c w = .ok (a, x)) : post a x := by
  simpa [Ends, run] using ends

theorem Ends.either (ends : Ends T c w post) :
    (∃ f, c w = .error f ∧ T f) ∨ ∃ a x, c w = .ok (a, x) ∧ post a x := by
  unfold Ends at ends
  split at ends
  next f run => exact Or.inl ⟨f, run, ends⟩
  next a x run => exact Or.inr ⟨a, x, run, ends⟩

theorem Ends.both {more : Fault → Prop} (left : Ends T c w post) (right : Ends more c w wanted) :
    Ends T c w fun a x => post a x ∧ wanted a x := by
  unfold Ends at left right ⊢
  split
  next run => simpa [run] using left
  next a x run => exact ⟨by simpa [run] using left, by simpa [run] using right⟩

theorem Ends.sure (ends : Ends (fun _ => False) c w post) : ∃ a x, c w = .ok (a, x) ∧ post a x :=
  ends.either.resolve_left fun ⟨_, _, never⟩ => never

theorem Ends.certain (ends : Ends (fun _ => False) c w post) :
    Ends T c w fun a x => c w = .ok (a, x) ∧ post a x := by
  obtain ⟨a, x, run, holds⟩ := ends.sure
  unfold Ends
  rw [run]
  exact ⟨rfl, holds⟩

theorem Ends.traced {more : Fault → Prop} (ends : Ends more c w post)
    (blamed : ∀ f, c w = .error f → T f) : Ends T c w fun a x => c w = .ok (a, x) ∧ post a x := by
  unfold Ends at ends ⊢
  split
  next f run => exact blamed f run
  next a x run => exact ⟨run, by simpa [run] using ends⟩

theorem Ends.ran (ends : Ends T c w post) : Ends T c w fun a x => c w = .ok (a, x) ∧ post a x :=
  ends.traced fun f run => by simpa [Ends, run] using ends

theorem endsOk {a x} (run : c w = .ok (a, x)) : Ends T c w post ↔ post a x := by
  simp [Ends, run]

theorem bindSame {d : Step s α} {f : α → Step s β} {x : s} (run : c w = d x) :
    (c >>= f) w = (d >>= f) x := by
  have left : (c >>= f) w = (c w).bind fun p => f p.1 p.2 := rfl
  have right : (d >>= f) x = (d x).bind fun p => f p.1 p.2 := rfl
  rw [left, right, run]

theorem bindRun {f : α → Step s β} {a x} (run : c w = .ok (a, x)) : (c >>= f) w = f a x :=
  bindSame (d := pure a) run

theorem bindFault {f : α → Step s β} {e : Fault} (run : c w = .error e) : (c >>= f) w = .error e :=
  bindSame (d := fault e) (x := w) run

theorem bindAgree {f h : α → Step s β} (agree : ∀ a x, c w = .ok (a, x) → f a x = h a x) :
    (c >>= f) w = (c >>= h) w := by
  cases run : c w with
  | error e => rw [bindFault run, bindFault run]
  | ok p => rw [bindRun run, bindRun run, agree p.1 p.2 run]

@[simp] theorem endsPure {a : α} : Ends T (pure a) w post ↔ post a w := Iff.rfl

@[simp] theorem endsBind {f : α → Step s β} {post : β → s → Prop} :
    Ends T (c >>= f) w post ↔ Ends T c w fun a x => Ends T (f a) x post := by
  have run : (c >>= f) w = (c w).bind fun p => f p.1 p.2 := rfl
  simp only [Ends, run]
  cases c w <;> rfl

@[simp] theorem endsMap {f : α → β} {post : β → s → Prop} :
    Ends T (f <$> c) w post ↔ Ends T c w fun a x => post (f a) x := by
  rw [← bind_pure_comp, endsBind]
  rfl

@[simp] theorem endsGet {post : s → s → Prop} : Ends T get w post ↔ post w w := Iff.rfl

theorem endsGetBind {f : s → Step s β} {post : β → s → Prop} :
    Ends T (get >>= f) w post ↔ Ends T (f w) w post := Iff.rfl

theorem getBindRun {f : s → Step s β} : (get >>= f) w = f w w := rfl

@[simp] theorem endsSet {x : s} {post : PUnit → s → Prop} : Ends T (set x) w post ↔ post ⟨⟩ x := Iff.rfl

@[simp] theorem endsModify {f : s → s} {post : PUnit → s → Prop} :
    Ends T (modify f) w post ↔ post ⟨⟩ (f w) := Iff.rfl

@[simp] theorem endsFault {f : Fault} : Ends T (fault f) w post ↔ T f := Iff.rfl

@[simp] theorem endsRequire {f : Fault} {o : Option α} :
    Ends T (require f o) w post ↔ (∀ a, o = some a → post a w) ∧ (o = none → T f) := by
  cases o <;> simp [require]

@[simp] theorem endsOfExcept {e : Except Fault α} :
    Ends T (ofExcept e) w post ↔ (∀ a, e = .ok a → post a w) ∧ ∀ f, e = .error f → T f := by
  cases e <;> simp [ofExcept]

theorem exceptRun {e : Except Fault α} {a : α} (is : e = .ok a) : ofExcept e w = .ok (a, w) := by
  rw [is]
  rfl

theorem requireRun {f : Fault} {o : Option α} {a : α} (is : o = some a) : require f o w = .ok (a, w) := by
  rw [is]
  rfl

theorem endsExcept {e : Except Fault α} {a : α} (is : e = .ok a) :
    Ends T (ofExcept e) w post ↔ post a w :=
  endsOk (exceptRun is)

@[simp] theorem endsZoom {part : t → s} {replace : t → s → t} {w : t} {post : α → t → Prop} :
    Ends T (zoom part replace c) w post ↔ Ends T c (part w) fun a x => post a (replace w x) := by
  simp only [Ends, zoom]
  cases c (part w) <;> rfl

theorem endsForM {f : α → Step s PUnit} {list : List α} {R : s → Prop} (start : R w)
    (each : ∀ a ∈ list, ∀ x, R x → Ends T (f a) x fun _ y => R y) :
    Ends T (list.forM f) w fun _ x => R x := by
  induction list generalizing w with
  | nil => exact start
  | cons a list ih =>
    change Ends T (f a >>= fun _ => list.forM f) w _
    refine endsBind.mpr ((each a (by simp) w start).weaken fun _ x kept => ?_)
    exact ih kept fun b mem => each b (by simp [mem])

def Looks (c : Step s α) : Prop := ∀ w, Ends (fun _ => True) c w fun _ x => x = w

theorem looksPure (a : α) : Looks (pure a : Step s α) := fun _ => rfl

theorem looksBind {c : Step s α} {f : α → Step s β} (first : Looks c) (rest : ∀ a, Looks (f a)) :
    Looks (c >>= f) := by
  intro w
  refine endsBind.mpr ((first w).weaken fun a x same => ?_)
  subst same
  exact rest a x

theorem looksGet : Looks (get : Step s s) := fun _ => rfl

theorem looksFault (f : Fault) : Looks (fault f : Step s α) := fun _ => trivial

theorem looksRequire (f : Fault) (o : Option α) : Looks (require f o : Step s α) := by
  intro w
  simp

theorem looksOfExcept (e : Except Fault α) : Looks (ofExcept e : Step s α) := by
  intro w
  simp

theorem looksMapM {f : α → Step s β} (each : ∀ a, Looks (f a)) (list : List α) :
    Looks (list.mapM f) := by
  induction list with
  | nil => exact looksPure _
  | cons a list ih =>
    rw [List.mapM_cons]
    exact looksBind (each a) fun b => looksBind ih fun bs => looksPure _

theorem looksZoom {part : t → s} {replace : t → s → t} (looks : Looks c)
    (same : ∀ w, replace w (part w) = w) : Looks (zoom part replace c) := by
  intro w
  refine endsZoom.mpr ((looks (part w)).weaken fun _ x kept => ?_)
  rw [kept, same]

end Step

namespace Action

variable {s t ε δ α β : Type} {T : Fault → Prop}

def Ends (T : Fault → Prop) (c : Action s ε α) (w : s) (post : Except ε α → s → Prop) : Prop :=
  Step.Ends T c.run w post

variable {c : Action s ε α} {w : s} {post wanted : Except ε α → s → Prop}

theorem Ends.weaken (ends : Ends T c w post) (weaker : ∀ r x, post r x → wanted r x) :
    Ends T c w wanted :=
  Step.Ends.weaken ends weaker

@[simp] theorem endsPure {a : α} : Ends T (pure a) w post ↔ post (.ok a) w := Iff.rfl

@[simp] theorem endsThrow {e : ε} : Ends T (throw e : Action s ε α) w post ↔ post (.error e) w := Iff.rfl

@[simp] theorem endsBind {f : α → Action s ε β} {post : Except ε β → s → Prop} :
    Ends T (c >>= f) w post ↔
      Ends T c w fun r x => (∀ a, r = .ok a → Ends T (f a) x post) ∧
        ∀ e, r = .error e → post (.error e) x := by
  have run : (c >>= f).run = c.run >>= ExceptT.bindCont f := rfl
  simp only [Ends, run, Step.endsBind]
  constructor
  · intro ends
    refine ends.weaken fun r x rest => ?_
    cases r with
    | ok a => exact ⟨fun b same => by cases same; exact rest, by simp⟩
    | error e => exact ⟨by simp, fun d same => by cases same; exact rest⟩
  · intro ends
    refine ends.weaken fun r x rest => ?_
    cases r with
    | ok a => exact rest.1 a rfl
    | error e => exact rest.2 e rfl

@[simp] theorem endsLift {c : Step s α} :
    Ends T (lift c : Action s ε α) w post ↔ Step.Ends T c w fun a x => post (.ok a) x := by
  have run : (lift c : Action s ε α).run = c >>= fun a => pure (.ok a) := rfl
  simp only [Ends, run, Step.endsBind, Step.endsPure]

@[simp] theorem endsMap {f : α → β} {post : Except ε β → s → Prop} :
    Ends T (f <$> c) w post ↔ Ends T c w fun r x => post (r.map f) x := by
  have run : (f <$> c).run = c.run >>= fun r => pure (r.map f) := by
    rw [ExceptT.run_map]
    rfl
  simp only [Ends, run, Step.endsBind, Step.endsPure]

theorem endsLiftBind {c : Step s α} {f : α → Action s ε β} {post : Except ε β → s → Prop} :
    Ends T (lift c >>= f) w post ↔ Step.Ends T c w fun a x => Ends T (f a) x post := by
  rw [endsBind, endsLift]
  constructor <;> intro ends <;> refine ends.weaken fun a x rest => ?_
  · exact rest.1 a rfl
  · exact ⟨fun b same => by cases same; exact rest, by simp⟩

theorem runLift {c : Step s α} {f : α → Action s ε β} : (lift c >>= f).run = c >>= fun a => (f a).run := by
  funext w
  have lifted : (lift c : Action s ε α).run = c >>= fun a => pure (.ok a) := rfl
  have bound : (lift c >>= f).run = (lift c : Action s ε α).run >>= ExceptT.bindCont f := rfl
  rw [bound, lifted, bind_assoc]
  rfl

theorem liftBindRun {c : Step s α} {f : α → Action s ε β} {a x} (run : c w = .ok (a, x)) :
    (lift c >>= f).run w = (f a).run x := by
  rw [runLift, Step.bindRun run]

theorem bindRun {f : α → Action s ε β} {a x} (run : c.run w = .ok (.ok a, x)) :
    (c >>= f).run w = (f a).run x := by
  change (c.run >>= ExceptT.bindCont f) w = _
  rw [Step.bindRun run]
  rfl

theorem bindError {f : α → Action s ε β} {e x} (run : c.run w = .ok (.error e, x)) :
    (c >>= f).run w = .ok (.error e, x) := by
  change (c.run >>= ExceptT.bindCont f) w = _
  rw [Step.bindRun run]
  rfl

theorem runBind {f : α → Action s ε β} : (c >>= f).run = c.run >>= fun
    | .ok a => (f a).run
    | .error e => pure (.error e) := by
  change c.run >>= ExceptT.bindCont f = _
  refine bind_congr fun r => ?_
  cases r <;> rfl

theorem runMapError {f : ε → δ} {rest : α → Action s δ β} :
    (mapError f c >>= rest).run = c.run >>= fun
      | .ok a => (rest a).run
      | .error e => pure (.error (f e)) := by
  have mapped : (mapError f c).run = c.run >>= fun r => pure (r.mapError f) := rfl
  have bound : (mapError f c >>= rest).run = (mapError f c).run >>= ExceptT.bindCont rest := rfl
  rw [bound, mapped, bind_assoc]
  refine bind_congr fun r => ?_
  cases r <;> rfl

theorem endsLiftedBind {c : Step s α} {f : α → Action s ε β} {post : Except ε β → s → Prop} :
    Ends T (liftM c >>= f) w post ↔ Step.Ends T c w fun a x => Ends T (f a) x post :=
  endsLiftBind

@[simp] theorem endsGet {post : Except ε s → s → Prop} :
    Ends T (get : Action s ε s) w post ↔ post (.ok w) w := Iff.rfl

theorem endsGetBind {f : s → Action s ε β} {post : Except ε β → s → Prop} :
    Ends T (get >>= f) w post ↔ Ends T (f w) w post := Iff.rfl

theorem getBindRun {f : s → Action s ε β} : (get >>= f : Action s ε β).run w = (f w).run w := rfl

@[simp] theorem endsSet {x : s} {post : Except ε PUnit → s → Prop} :
    Ends T (set x : Action s ε PUnit) w post ↔ post (.ok ⟨⟩) x := Iff.rfl

@[simp] theorem endsModify {f : s → s} {post : Except ε PUnit → s → Prop} :
    Ends T (modify f : Action s ε PUnit) w post ↔ post (.ok ⟨⟩) (f w) := Iff.rfl

@[simp] theorem endsOfExcept {e : Except ε α} : Ends T (ofExcept e) w post ↔ post e w := by
  cases e <;> rfl

@[simp] theorem endsMapError {f : ε → δ} {post : Except δ α → s → Prop} :
    Ends T (mapError f c) w post ↔
      Ends T c w fun r x => post (r.mapError f) x := by
  have run : (mapError f c).run = c.run >>= fun r => pure (r.mapError f) := rfl
  simp only [Ends, run, Step.endsBind, Step.endsPure]

@[simp] theorem endsZoom {part : t → s} {replace : t → s → t} {w : t} {post : Except ε α → t → Prop} :
    Ends T (zoom part replace c) w post ↔ Ends T c (part w) fun r x => post r (replace w x) :=
  Step.endsZoom

def Looks (c : Action s ε α) : Prop := Step.Looks c.run

theorem looksPure (a : α) : Looks (pure a : Action s ε α) := fun _ => rfl

theorem looksThrow (e : ε) : Looks (throw e : Action s ε α) := fun _ => rfl

theorem looksBind {c : Action s ε α} {f : α → Action s ε β} (first : Looks c)
    (rest : ∀ a, Looks (f a)) : Looks (c >>= f) := by
  intro w
  refine endsBind.mpr ((first w).weaken fun r x same => ?_)
  subst same
  exact ⟨fun a _ => rest a x, fun _ _ => rfl⟩

theorem looksLift {c : Step s α} (looks : Step.Looks c) : Looks (lift c : Action s ε α) := by
  intro w
  exact endsLift.mpr (looks w)

theorem looksOfExcept (e : Except ε α) : Looks (ofExcept e : Action s ε α) := by
  cases e <;> exact fun _ => rfl

theorem looksMapError {f : ε → δ} (looks : Looks c) : Looks (mapError f c) := by
  intro w
  exact endsMapError.mpr (looks w)

end Action
end Detour
