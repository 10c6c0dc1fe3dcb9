import Detour.Proofs.Widening
import Detour.Proofs.Hook.Entry
import Detour.Proofs.Vm.Lineage

/-! Objects as values of declared kinds, a reference checked by its class and a wrapped primitive by its kind.
Of the arguments of a reflective call the first that does not fit gives the error; the result of a handler gives
the value of the call or the one error that is raised. -/
namespace Detour

open World

variable {σ : Type} {w x : World σ} {m : MethodAddress} {info : Method}

/-! ## The classes of objects -/

def World.IsA (w : World σ) (r : Ref) (c : ClassId) : Prop :=
  ∃ k s, w.vm.heap.Denotes (some r) (some k) ∧ w.vm.heap.Classed k s ∧ w.vm.classes.isAssignable s c = true

theorem isInstanceIff {r : Ref} {c : ClassId} : isInstance r c w = .ok (true, w) ↔ w.IsA r c := by
  constructor
  · intro run
    have ends : Step.Ends (fun _ => True) (isInstance r c) w fun fits _ => fits = true → w.IsA r c := by
      refine vmStepEnds.mpr (Step.endsBind.mpr ((Vm.classOfEnds (fun _ => trivial) trivial).weaken
        fun s vm ⟨same, o, found, known⟩ => ?_))
      subst same
      obtain ⟨k, denotes, at_⟩ := Heap.getDenotes found
      exact fun fits => ⟨k, s, denotes, ⟨o, at_, known⟩, fits⟩
    exact ends.result run rfl
  · rintro ⟨k, s, denotes, ⟨o, at_, known⟩, fits⟩
    have found := (Heap.denotesGet denotes).trans at_
    have ends : Step.Ends (fun _ => False) (isInstance r c) w fun b y => y = w ∧ b = true := by
      refine vmStepEnds.mpr (Step.endsBind.mpr ((Vm.classOfObject found known).weaken
        fun d vm ⟨same, is⟩ => ?_))
      subst same is
      exact ⟨rfl, fits⟩
    obtain ⟨_, _, run, rfl, rfl⟩ := ends.sure
    exact run

theorem World.IsA.kept {free : Handle → Prop} {still : Nat → Prop} {r s : Ref} {c : ClassId} (is : w.IsA r c)
    (same : Same w.vm.heap x.vm.heap (some r) (some s)) (changes : Vm.Changes free still w.vm.bare x.vm.bare)
    (kin : w.vm.classes.Kin x.vm.classes) : x.IsA s c := by
  obtain ⟨k, d, denotes, classed, fits⟩ := is
  obtain ⟨o, old, now⟩ := same
  cases Heap.denotesOne denotes old
  have classed : w.vm.bare.heap.Classed k d := classed
  exact ⟨k, d, now, changes.classed classed, (kin.assignable d c).trans fits⟩

theorem World.IsA.moved {free : Handle → Prop} {still : Nat → Prop} {r s : Ref} {c : ClassId} (is : w.IsA r c)
    (same : Same w.vm.heap x.vm.heap (some r) (some s)) (changes : Vm.Changes free still w.vm x.vm)
    (classes : x.vm.classes = w.vm.classes) : x.IsA s c :=
  is.kept same changes.bare (classes ▸ .refl _)

section Objects

variable {r : Ref} {s c : ClassId}

def World.OfClass (w : World σ) (r : Ref) (s : ClassId) : Prop :=
  ∃ o, w.vm.heap.get? r = some o ∧ o.class? = some s

theorem objectRun {vm : Vm} {o : Obj} (found : vm.heap.get? r = some o) : Vm.object r vm = .ok (o, vm) :=
  Step.requireRun found

theorem classOfRun (is : w.OfClass r s) : Vm.classOf r w.vm = .ok (s, w.vm) := by
  obtain ⟨o, found, known⟩ := is
  unfold Vm.classOf
  rw [Step.bindRun (objectRun found)]
  cases o with
  | boxed v => exact Step.requireRun (show ClassId.wrapper? v.tag = some s from known)
  | _ =>
    cases known
    rfl

theorem typeNameRun (is : w.OfClass r s) : typeName r w = .ok (w.vm.classes.name s, w) := by
  have named : Vm.typeName r w.vm = .ok (w.vm.classes.name s, w.vm) := Step.bindRun (classOfRun is)
  exact vmStepRun named

theorem isInstanceRun (is : w.OfClass r s) (c : ClassId) :
    isInstance r c w = .ok (w.vm.classes.isAssignable s c, w) := by
  have fits : Vm.isInstance r c w.vm = .ok (w.vm.classes.isAssignable s c, w.vm) :=
    Step.bindRun (classOfRun is)
  exact vmStepRun fits

theorem isAOfClass (is : w.OfClass r s) : w.IsA r c ↔ w.vm.classes.isAssignable s c = true := by
  rw [← isInstanceIff, isInstanceRun is]
  simp

theorem unboxPlain (is : w.OfClass r s) (plain : ∀ v, w.vm.heap.get? r ≠ some (.boxed v)) :
    vmStep (Vm.unbox r) w = .ok (none, w) := by
  obtain ⟨o, found, _⟩ := is
  have looked : Vm.unbox r w.vm = .ok (none, w.vm) := by
    unfold Vm.unbox
    rw [Step.bindRun (objectRun found)]
    cases o with
    | boxed v => exact absurd found (plain v)
    | _ => rfl
  exact vmStepRun looked

theorem unboxRun {v : Value} (boxed : w.vm.heap.get? r = some (.boxed v)) :
    vmStep (Vm.unbox r) w = .ok (some v, w) := by
  have ends : Step.Ends (fun _ => False) (vmStep (Vm.unbox r)) w fun o y => y = w ∧ o = some v := by
    refine vmStepEnds.mpr ((Vm.unboxEnds (by simp [boxed])).weaken fun o vm ⟨same, p, found, is⟩ => ?_)
    subst same
    cases boxed.symm.trans found
    exact ⟨rfl, (is v).mpr rfl⟩
  obtain ⟨_, _, run, rfl, rfl⟩ := ends.sure
  exact run

end Objects

/-! ## One argument -/

inductive Converts (w : World σ) (info : Method) (index : Nat) : Tag → Option Ref → Value → Prop
  | reference {a : Option Ref}
    (fits : ∀ r c, a = some r → (info.paramClasses[index]?).join = some c → w.IsA r c) :
    Converts w info index .reference a (.reference a)
  | primitive {t : Tag} {r : Ref} {stored v : Value} (kind : t ≠ .reference)
    (boxed : w.vm.heap.get? r = some (.boxed stored)) (widens : stored.widenTo t = some v) :
    Converts w info index t (some r) v

inductive Misfits (w : World σ) (info : Method) (index : Nat) : Tag → Option Ref → String → String → Prop
  | foreign {r : Ref} {s c : ClassId} (declared : (info.paramClasses[index]?).join = some c) (is : w.OfClass r s)
    (apart : w.vm.classes.isAssignable s c = false) :
    Misfits w info index .reference (some r) (w.vm.classes.name c) (w.vm.classes.name s)
  | null {t : Tag} (kind : t ≠ .reference) : Misfits w info index t none t.name "null"
  | object {t : Tag} {r : Ref} {s : ClassId} (kind : t ≠ .reference) (is : w.OfClass r s)
    (plain : ∀ v, w.vm.heap.get? r ≠ some (.boxed v)) :
    Misfits w info index t (some r) t.name (w.vm.classes.name s)
  | narrow {t : Tag} {r : Ref} {stored : Value} (kind : t ≠ .reference)
    (boxed : w.vm.heap.get? r = some (.boxed stored)) (refuses : stored.widenTo t = none) :
    Misfits w info index t (some r) t.name stored.tag.name

section Argument

variable {index : Nat} {t : Tag} {a : Option Ref} {v : Value} {expected actual : String}

theorem convertsRun (known : method m w = .ok (info, w)) (converts : Converts w info index t a v) :
    (Boxing.convertArgument m index t a).run w = .ok (.ok v, w) := by
  unfold Boxing.convertArgument
  rw [Action.liftBindRun known]
  cases converts with
  | reference fits =>
    rw [if_pos rfl]
    cases a with
    | none => rfl
    | some r =>
      cases declared : (info.paramClasses[index]?).join with
      | none => rfl
      | some c =>
        dsimp only
        rw [Action.liftBindRun (isInstanceIff.mpr (fits r c rfl declared))]
        rfl
  | primitive kind boxed widens =>
    rw [if_neg kind]
    dsimp only
    rw [Action.liftBindRun (unboxRun boxed)]
    simp only [widens]
    rfl

theorem misfitsRun (known : method m w = .ok (info, w)) (misfits : Misfits w info index t a expected actual) :
    (Boxing.convertArgument m index t a).run w =
      .ok (.error (.argumentTypeMismatch info.name index expected actual), w) := by
  unfold Boxing.convertArgument
  rw [Action.liftBindRun known]
  cases misfits with
  | @foreign r s c declared is apart =>
    have named : className c w = .ok (w.vm.classes.name c, w) := rfl
    simp only [if_true, declared]
    rw [Action.liftBindRun (isInstanceRun is c), apart, if_neg Bool.false_ne_true, Action.liftBindRun named,
      Action.liftBindRun (typeNameRun is)]
    rfl
  | null kind =>
    rw [if_neg kind]
    rfl
  | object kind is plain =>
    rw [if_neg kind]
    dsimp only
    rw [Action.liftBindRun (unboxPlain is plain)]
    dsimp only
    rw [Action.liftBindRun (typeNameRun is)]
    rfl
  | narrow kind boxed refuses =>
    rw [if_neg kind]
    dsimp only
    rw [Action.liftBindRun (unboxRun boxed)]
    simp only [refuses]
    rfl

theorem convertsOrMisfits (w : World σ) (info : Method) (index : Nat) (t : Tag) {a : Option Ref}
    (live : ∀ r, a = some r → ∃ s, w.OfClass r s) :
    (∃ v, Converts w info index t a v) ∨ ∃ expected actual, Misfits w info index t a expected actual := by
  by_cases kind : t = .reference
  · subst kind
    cases a with
    | none => exact .inl ⟨_, .reference nofun⟩
    | some r =>
      obtain ⟨s, is⟩ := live r rfl
      cases declared : (info.paramClasses[index]?).join with
      | none => exact .inl ⟨_, .reference fun _ c _ there => nomatch declared.symm.trans there⟩
      | some c =>
        cases fits : w.vm.classes.isAssignable s c with
        | false => exact .inr ⟨_, _, .foreign declared is fits⟩
        | true =>
          refine .inl ⟨_, .reference fun q c' same there => ?_⟩
          cases same
          cases declared.symm.trans there
          exact (isAOfClass is).mpr fits
  · cases a with
    | none => exact .inr ⟨_, _, .null kind⟩
    | some r =>
      obtain ⟨s, is⟩ := live r rfl
      by_cases wraps : ∃ v, w.vm.heap.get? r = some (.boxed v)
      · obtain ⟨stored, boxed⟩ := wraps
        cases widens : stored.widenTo t with
        | none => exact .inr ⟨_, _, .narrow kind boxed widens⟩
        | some v => exact .inl ⟨v, .primitive kind boxed widens⟩
      · exact .inr ⟨_, _, .object kind is fun v boxed => wraps ⟨v, boxed⟩⟩

theorem Converts.tag (converts : Converts w info index t a v) : v.tag = t := by
  cases converts with
  | reference => rfl
  | primitive _ _ widens => exact Value.widenTag widens

end Argument

/-! ## All arguments -/

inductive ConvertsEach (w : World σ) (info : Method) : Nat → List Tag → List (Option Ref) → List Value → Prop
  | nil {index : Nat} : ConvertsEach w info index [] [] []
  | cons {index t ts a as v vs} (head : Converts w info index t a v)
    (tail : ConvertsEach w info (index + 1) ts as vs) :
    ConvertsEach w info index (t :: ts) (a :: as) (v :: vs)

structure StopsAt (w : World σ) (info : Method) (index : Nat) (ts : List Tag) (as : List (Option Ref)) (i : Nat)
    (expected actual : String) : Prop where
  earlier : ∀ j < i, ∃ t a v, ts[j]? = some t ∧ as[j]? = some a ∧ Converts w info (index + j) t a v
  misfits : ∃ t a, ts[i]? = some t ∧ as[i]? = some a ∧ Misfits w info (index + i) t a expected actual

section Arguments

variable {index i : Nat} {ts : List Tag} {as : List (Option Ref)} {vs : List Value} {expected actual : String}

theorem ConvertsEach.tags (each : ConvertsEach w info index ts as vs) : vs.map Value.tag = ts := by
  induction each with
  | nil => rfl
  | cons head tail ih => simp [head.tag, ih]

theorem ConvertsEach.length (each : ConvertsEach w info index ts as vs) : as.length = ts.length := by
  induction each with
  | nil => rfl
  | cons head tail ih => simp [ih]

theorem ConvertsEach.at (each : ConvertsEach w info index ts as vs) (i : Nat) {v : Value} (there : vs[i]? = some v) :
    ∃ t a, ts[i]? = some t ∧ as[i]? = some a ∧ Converts w info (index + i) t a v := by
  induction each generalizing i with
  | nil => simp at there
  | cons head tail ih =>
    cases i with
    | zero =>
      cases there
      exact ⟨_, _, rfl, rfl, head⟩
    | succ i =>
      rw [show ∀ n, n + (i + 1) = n + 1 + i by omega]
      exact ih i there

theorem eachConverts (known : method m w = .ok (info, w)) (each : ConvertsEach w info index ts as vs) :
    (Boxing.convertEach m index ts as).run w = .ok (.ok vs, w) := by
  induction each with
  | nil => rfl
  | @cons index t ts a as v vs head tail ih =>
    change (Boxing.convertArgument m index t a >>= _ : Act σ CallError (List Value)).run w = _
    rw [Action.bindRun (convertsRun known head), Action.bindRun ih]
    rfl

theorem stopsNext {t : Tag} {a : Option Ref} :
    StopsAt w info index (t :: ts) (a :: as) (i + 1) expected actual ↔
      (∃ v, Converts w info index t a v) ∧ StopsAt w info (index + 1) ts as i expected actual := by
  have next : ∀ n, index + 1 + n = index + (n + 1) := by omega
  constructor
  · intro stops
    obtain ⟨_, _, v, tag, given, head⟩ := stops.earlier 0 (by omega)
    cases tag
    cases given
    refine ⟨⟨v, head⟩, fun j below => ?_, ?_⟩
    · rw [next]
      exact stops.earlier (j + 1) (by omega)
    · rw [next]
      exact stops.misfits
  · rintro ⟨⟨v, head⟩, earlier, misfits⟩
    rw [next] at misfits
    refine ⟨fun j below => ?_, misfits⟩
    cases j with
    | zero => exact ⟨t, a, v, rfl, rfl, head⟩
    | succ j =>
      rw [← next]
      exact earlier j (by omega)

theorem eachStops (known : method m w = .ok (info, w)) (stops : StopsAt w info index ts as i expected actual) :
    (Boxing.convertEach m index ts as).run w =
      .ok (.error (.argumentTypeMismatch info.name (index + i) expected actual), w) := by
  induction ts generalizing index as i with
  | nil => simpa using stops.misfits
  | cons t ts ih =>
    cases as with
    | nil => simpa using stops.misfits
    | cons a as =>
      change (Boxing.convertArgument m index t a >>= _ : Act σ CallError (List Value)).run w = _
      cases i with
      | zero =>
        obtain ⟨_, _, tag, given, misfits⟩ := stops.misfits
        cases tag
        cases given
        exact Action.bindError (misfitsRun known misfits)
      | succ i =>
        obtain ⟨⟨v, head⟩, tail⟩ := stopsNext.mp stops
        rw [Action.bindRun (convertsRun known head), Action.bindError (ih tail), Nat.add_assoc, Nat.add_comm 1]

theorem convertsOrStops (w : World σ) (info : Method) (index : Nat) (same : as.length = ts.length)
    (live : ∀ r, some r ∈ as → ∃ s, w.OfClass r s) :
    (∃ vs, ConvertsEach w info index ts as vs) ∨
      ∃ i expected actual, StopsAt w info index ts as i expected actual := by
  induction ts generalizing index as with
  | nil =>
    obtain rfl := List.length_eq_zero_iff.mp same
    exact .inl ⟨[], .nil⟩
  | cons t ts ih =>
    cases as with
    | nil => contradiction
    | cons a as =>
      have here : ∀ r, a = some r → ∃ s, w.OfClass r s := fun r is => live r (is ▸ List.mem_cons_self)
      rcases convertsOrMisfits w info index t here with ⟨v, head⟩ | ⟨_, _, misfits⟩
      · rcases ih (index + 1) (Nat.succ.inj same) fun r mem => live r (List.mem_cons_of_mem _ mem) with
          ⟨vs, tail⟩ | ⟨i, _, _, stops⟩
        · exact .inl ⟨v :: vs, .cons head tail⟩
        · exact .inr ⟨i + 1, _, _, stopsNext.mpr ⟨⟨v, head⟩, stops⟩⟩
      · exact .inr ⟨0, _, _, nofun, t, a, rfl, rfl, misfits⟩

theorem argumentsConvert {shorty : Shorty} (known : method m w = .ok (info, w))
    (each : ConvertsEach w info 0 shorty.params as vs) :
    (Boxing.convertArguments m shorty as).run w = .ok (.ok vs, w) := by
  unfold Boxing.convertArguments
  rw [if_neg (not_not.mpr each.length), eachConverts known each]

end Arguments

/-! ## The result -/

inductive Yields (w : World σ) (info : Method) : Tag → Option Ref → Value → Prop
  | void {o : Option Ref} : Yields w info .void o .void
  | reference {o : Option Ref} (fits : ∀ r c, o = some r → info.resultClass = some c → w.IsA r c) :
    Yields w info .reference o (.reference o)
  | primitive {t : Tag} {r : Ref} {stored v : Value} (kind : t.isPrimitive = true)
    (boxed : w.vm.heap.get? r = some (.boxed stored)) (widens : stored.widenTo t = some v) :
    Yields w info t (some r) v

inductive Rejects (w : World σ) (info : Method) : Tag → Option Ref → CallError → Prop
  | foreign {r : Ref} {s c : ClassId} (declared : info.resultClass = some c) (is : w.OfClass r s)
    (apart : w.vm.classes.isAssignable s c = false) :
    Rejects w info .reference (some r) (.returnTypeMismatch (w.vm.classes.name c) (w.vm.classes.name s))
  | null {t : Tag} (kind : t.isPrimitive = true) : Rejects w info t none (.nullResult t.name)
  | object {t : Tag} {r : Ref} {s : ClassId} (kind : t.isPrimitive = true) (is : w.OfClass r s)
    (plain : ∀ v, w.vm.heap.get? r ≠ some (.boxed v)) :
    Rejects w info t (some r) (.returnTypeMismatch t.name (w.vm.classes.name s))
  | narrow {t : Tag} {r : Ref} {stored : Value} (kind : t.isPrimitive = true)
    (boxed : w.vm.heap.get? r = some (.boxed stored)) (refuses : stored.widenTo t = none) :
    Rejects w info t (some r) (.returnTypeMismatch t.name stored.tag.name)

section Results

variable {t : Tag} {o : Option Ref} {v : Value} {e : CallError}

theorem convertNull (kind : t.isPrimitive = true) :
    (Boxing.convertResult m t none : Act σ CallError Value) = throw (.nullResult t.name) := by
  cases t <;> first | rfl | contradiction

theorem convertObject (kind : t.isPrimitive = true) (r : Ref) :
    (Boxing.convertResult m t (some r) : Act σ CallError Value) = (do
      match ← lift (vmStep (Vm.unbox r)) with
      | none => throw (.returnTypeMismatch t.name (← lift (typeName r)))
      | some stored =>
        match stored.widenTo t with
        | none => throw (.returnTypeMismatch t.name stored.tag.name)
        | some v => return v) := by
  cases t <;> first | rfl | contradiction

theorem Yields.tag (yields : Yields w info t o v) : v.tag = t := by
  cases yields with
  | void => rfl
  | reference => rfl
  | primitive _ _ widens => exact Value.widenTag widens

theorem yieldsRun (known : method m w = .ok (info, w)) (yields : Yields w info t o v) :
    (Boxing.convertResult m t o).run w = .ok (.ok v, w) := by
  cases yields with
  | void => rfl
  | reference fits =>
    change (lift (method m) >>= _ : Act σ CallError Value).run w = _
    rw [Action.liftBindRun known]
    cases o with
    | none => rfl
    | some r =>
      cases declared : info.resultClass with
      | none => rfl
      | some c =>
        dsimp only
        rw [Action.liftBindRun (isInstanceIff.mpr (fits r c rfl declared))]
        rfl
  | primitive kind boxed widens =>
    rw [convertObject kind, Action.liftBindRun (unboxRun boxed)]
    simp only [widens]
    rfl

theorem rejectsRun (known : method m w = .ok (info, w)) (rejects : Rejects w info t o e) :
    (Boxing.convertResult m t o).run w = .ok (.error e, w) := by
  cases rejects with
  | @foreign r s c declared is apart =>
    have named : className c w = .ok (w.vm.classes.name c, w) := rfl
    change (lift (method m) >>= _ : Act σ CallError Value).run w = _
    rw [Action.liftBindRun known]
    simp only [declared]
    rw [Action.liftBindRun (isInstanceRun is c), apart, if_neg Bool.false_ne_true, Action.liftBindRun named,
      Action.liftBindRun (typeNameRun is)]
    rfl
  | null kind =>
    rw [convertNull kind]
    rfl
  | object kind is plain =>
    rw [convertObject kind, Action.liftBindRun (unboxPlain is plain)]
    dsimp only
    rw [Action.liftBindRun (typeNameRun is)]
    rfl
  | narrow kind boxed refuses =>
    rw [convertObject kind, Action.liftBindRun (unboxRun boxed)]
    simp only [refuses]
    rfl

theorem yieldsOrRejects (w : World σ) (info : Method) (t : Tag) (live : ∀ r, o = some r → ∃ s, w.OfClass r s) :
    (∃ v, Yields w info t o v) ∨ ∃ e, Rejects w info t o e := by
  by_cases kind : t.isPrimitive = true
  · cases o with
    | none => exact .inr ⟨_, .null kind⟩
    | some r =>
      obtain ⟨s, is⟩ := live r rfl
      by_cases wraps : ∃ v, w.vm.heap.get? r = some (.boxed v)
      · obtain ⟨stored, boxed⟩ := wraps
        cases widens : stored.widenTo t with
        | none => exact .inr ⟨_, .narrow kind boxed widens⟩
        | some v => exact .inl ⟨v, .primitive kind boxed widens⟩
      · exact .inr ⟨_, .object kind is fun v boxed => wraps ⟨v, boxed⟩⟩
  · cases t <;> try contradiction
    case void => exact .inl ⟨_, .void⟩
    case reference =>
      cases o with
      | none => exact .inl ⟨_, .reference nofun⟩
      | some r =>
        obtain ⟨s, is⟩ := live r rfl
        cases declared : info.resultClass with
        | none => exact .inl ⟨_, .reference fun _ c _ there => nomatch declared.symm.trans there⟩
        | some c =>
          cases fits : w.vm.classes.isAssignable s c with
          | false => exact .inr ⟨_, .foreign declared is fits⟩
          | true =>
            refine .inl ⟨_, .reference fun q c' same there => ?_⟩
            cases same
            cases declared.symm.trans there
            exact (isAOfClass is).mpr fits

end Results
end Detour
