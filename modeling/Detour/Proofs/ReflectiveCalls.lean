import Detour.Proofs.MovingObjects
import Detour.Proofs.PastTheHook

/-! Reflective calls. The shorty, the receiver, the number of the arguments and then each argument are
checked in this order, and nothing is done before; the first check that fails gives the error. A call that
passes them all enters its target once, with values of the declared kinds. -/
namespace Detour

open World

variable {σ : Type} {w : World σ} {m : MethodAddress} {d : Descriptor} {info : Method} {r : Ref} {s c : ClassId}

theorem describeRun (found : w.descriptor? m = some d) (known : method m w = .ok (info, w)) :
    describe m w = .ok (d.declaringClass.elim "?" w.vm.classes.name ++ "." ++ info.name, w) := by
  unfold describe
  rw [Step.bindRun (descriptorRun found)]
  cases d.declaringClass with
  | none =>
    dsimp only
    rw [pure_bind, Step.bindRun known]
    rfl
  | some c =>
    have named : className c w = .ok (w.vm.classes.name c, w) := rfl
    dsimp only
    rw [Step.bindRun named, Step.bindRun known]
    rfl

def Receives (w : World σ) (d : Descriptor) (receiver : Option Ref) : Prop :=
  d.isStatic = false → ∃ r, receiver = some r ∧ ∀ c, d.declaringClass = some c → w.IsA r c

inductive Refuses (w : World σ) (d : Descriptor) (info : Method) (receiver : Option Ref)
    (args : List (Option Ref)) : CallError → Prop
  | shorty {e : InstallError} (unread : d.shorty = .error e) : Refuses w d info receiver args (.hook e)
  | nullReceiver {shorty : Shorty} (read : d.shorty = .ok shorty) (dynamic : d.isStatic = false)
    (null : receiver = none) :
    Refuses w d info receiver args
      (.nullReceiver (d.declaringClass.elim "?" w.vm.classes.name ++ "." ++ info.name))
  | receiverMismatch {shorty : Shorty} {r : Ref} {s c : ClassId} (read : d.shorty = .ok shorty)
    (dynamic : d.isStatic = false) (given : receiver = some r) (declared : d.declaringClass = some c)
    (is : w.OfClass r s) (apart : w.vm.classes.isAssignable s c = false) :
    Refuses w d info receiver args (.receiverMismatch (w.vm.classes.name c) (w.vm.classes.name s))
  | argumentCount {shorty : Shorty} (read : d.shorty = .ok shorty) (receives : Receives w d receiver)
    (differ : args.length ≠ shorty.params.length) :
    Refuses w d info receiver args (.argumentCountMismatch shorty.params.length args.length)
  | argument {shorty : Shorty} {i : Nat} {expected actual : String} (read : d.shorty = .ok shorty)
    (receives : Receives w d receiver) (same : args.length = shorty.params.length)
    (stops : StopsAt w info 0 shorty.params args i expected actual) :
    Refuses w d info receiver args (.argumentTypeMismatch info.name i expected actual)

structure Admits (w : World σ) (d : Descriptor) (info : Method) (receiver : Option Ref) (args : List (Option Ref))
    (shorty : Shorty) (values : List Value) : Prop where
  read : d.shorty = .ok shorty
  receives : Receives w d receiver
  converts : ConvertsEach w info 0 shorty.params args values

section Calls

variable {receiver : Option Ref} {args : List (Option Ref)} {shorty : Shorty} {values : List Value} {e : CallError}

theorem refusesOrAdmits (w : World σ) (d : Descriptor) (info : Method)
    (receiverLive : ∀ r, receiver = some r → ∃ s, w.OfClass r s)
    (argsLive : ∀ r, some r ∈ args → ∃ s, w.OfClass r s) :
    (∃ e, Refuses w d info receiver args e) ∨ ∃ shorty values, Admits w d info receiver args shorty values := by
  cases read : d.shorty with
  | error e => exact .inl ⟨_, .shorty read⟩
  | ok shorty =>
    by_cases receives : Receives w d receiver
    · by_cases same : args.length = shorty.params.length
      · rcases convertsOrStops w info 0 same argsLive with ⟨values, converts⟩ | ⟨i, _, _, stops⟩
        · exact .inr ⟨shorty, values, read, receives, converts⟩
        · exact .inl ⟨_, .argument read receives same stops⟩
      · exact .inl ⟨_, .argumentCount read receives same⟩
    · obtain ⟨dynamic, fails⟩ := Classical.not_imp.mp receives
      cases receiver with
      | none => exact .inl ⟨_, .nullReceiver read dynamic rfl⟩
      | some r =>
        obtain ⟨s, is⟩ := receiverLive r rfl
        have foreign : ∃ c, d.declaringClass = some c ∧ ¬ w.IsA r c := by
          by_contra all
          exact fails ⟨r, rfl, fun c declared => by
            by_contra apart
            exact all ⟨c, declared, apart⟩⟩
        obtain ⟨c, declared, apart⟩ := foreign
        rw [isAOfClass is, Bool.not_eq_true] at apart
        exact .inl ⟨_, .receiverMismatch read dynamic rfl declared is apart⟩

theorem checkedParts (found : w.descriptor? m = some d) (read : d.shorty = .ok shorty) :
    (checked m receiver args).run w = (do
      let receiver ← checkReceiver m receiver
      let values ← Boxing.convertArguments m shorty args
      return (receiver, values) : Act σ CallError (Option Ref × List Value)).run w := by
  unfold checked
  rw [Action.liftBindRun (descriptorRun found), read]
  rfl

theorem refusesRun (found : w.descriptor? m = some d) (known : method m w = .ok (info, w))
    (refuses : Refuses w d info receiver args e) : (checked m receiver args).run w = .ok (.error e, w) := by
  cases refuses with
  | shorty unread =>
    unfold checked
    rw [Action.liftBindRun (descriptorRun found), unread]
    rfl
  | nullReceiver read dynamic null =>
    rw [checkedParts found read]
    refine Action.bindError ?_
    subst null
    unfold checkReceiver
    rw [Action.liftBindRun (descriptorRun found)]
    simp only [dynamic, Bool.false_eq_true, if_false]
    rw [Action.liftBindRun (describeRun found known)]
    rfl
  | @receiverMismatch _ r s c read dynamic given declared is apart =>
    have named : className c w = .ok (w.vm.classes.name c, w) := rfl
    rw [checkedParts found read]
    refine Action.bindError ?_
    subst given
    unfold checkReceiver
    rw [Action.liftBindRun (descriptorRun found)]
    simp only [dynamic, Bool.false_eq_true, if_false, declared]
    rw [Action.liftBindRun (isInstanceRun is c), apart, if_neg Bool.false_ne_true, Action.liftBindRun named,
      Action.liftBindRun (typeNameRun is)]
    rfl
  | argumentCount read receives differ =>
    rw [checkedParts found read, Action.bindRun (checkReceiverRun found receives)]
    unfold Boxing.convertArguments
    rw [if_pos differ]
    rfl
  | @argument shorty i _ _ read receives same stops =>
    rw [checkedParts found read, Action.bindRun (checkReceiverRun found receives)]
    unfold Boxing.convertArguments
    rw [if_neg (not_not.mpr same), Action.bindError (eachStops known stops), Nat.zero_add]

theorem admitsRun (found : w.descriptor? m = some d) (known : method m w = .ok (info, w))
    (admits : Admits w d info receiver args shorty values) :
    (checked m receiver args).run w = .ok (.ok (if d.isStatic then none else receiver, values), w) := by
  rw [checkedParts found admits.read, Action.bindRun (checkReceiverRun found admits.receives),
    Action.bindRun (argumentsConvert known admits.converts)]
  rfl

theorem reflectiveCall (invoke : Invoker σ) (found : w.descriptor? m = some d)
    (known : method m w = .ok (info, w)) (receiverLive : ∀ r, receiver = some r → ∃ s, w.OfClass r s)
    (argsLive : ∀ r, some r ∈ args → ∃ s, w.OfClass r s) :
    (∀ e, Refuses w d info receiver args e →
      (callUnhooked invoke m receiver args).run w = .ok (.error e, w)) ∧
    (∀ shorty values, Admits w d info receiver args shorty values →
      values.map Value.tag = shorty.params ∧
      (∀ (i : Nat) v, values[i]? = some v → ∃ t a, shorty.params[i]? = some t ∧ args[i]? = some a ∧
        Converts w info i t a v) ∧
      ∃ passed, (passed = none ↔ d.isStatic = true) ∧ (d.isStatic = false → passed = receiver) ∧
        (callUnhooked invoke m receiver args).run w = (do
          let result ← Action.mapError .runtime (invoke.serve (unhookedOf w m) passed values)
          Action.mapError .runtime (Boxing.wrapResult result) : Act σ CallError (Option Ref)).run w) ∧
    ((∃ e, Refuses w d info receiver args e) ∨ ∃ shorty values, Admits w d info receiver args shorty values) := by
  refine ⟨fun e refuses => ?_, fun shorty values admits => ?_, refusesOrAdmits w d info receiverLive argsLive⟩
  · rw [callUnhookedParts invoke rfl, callCheckedParts]
    exact Action.bindError (refusesRun found known refuses)
  · refine ⟨admits.converts.tags, fun i v there => ?_, if d.isStatic then none else receiver, ?_, ?_, ?_⟩
    · simpa using admits.converts.at i there
    · cases static : d.isStatic with
      | true => simp
      | false =>
        obtain ⟨r, rfl, _⟩ := admits.receives static
        simp
    · intro dynamic
      rw [dynamic, if_neg Bool.false_ne_true]
    · rw [callUnhookedParts invoke rfl, callCheckedParts, Action.bindRun (admitsRun found known admits)]

end Calls

namespace Sample

def pickHooked : Method := { pick with descriptor := pick.descriptor.patched .compiledEntry 0 }
def wrapping : World Unit :=
  { taken with vm.heap := ⟨0x1000, #[.instance .object, .reflected (.live 0), .boxed (.byte 7)]⟩ }
def echoing : Invoker Unit := fun _ receiver _ => pure (.reference receiver)

theorem firstWrapped : wrapping.OfClass first .object := ⟨.instance .object, rfl, rfl⟩

theorem thirdWrapped : ∃ s, wrapping.OfClass third s := ⟨_, .boxed (.byte 7), rfl, rfl⟩

theorem firstIsObject : wrapping.IsA first .object := by
  refine (isAOfClass firstWrapped).mpr ?_
  unfold ClassTable.isAssignable
  rw [ClassTable.lineage]
  rfl

theorem wrappingAdmits :
    Admits wrapping pickHooked.descriptor pickHooked (some first) [some third, some first]
      ⟨.reference, [.int, .reference]⟩ [.int 7, .reference (some first)] where
  read := pickShorty
  receives _ := ⟨first, rfl, fun c declared => by
    cases declared
    exact firstIsObject⟩
  converts := by
    refine .cons (.primitive (by decide) rfl rfl) (.cons (.reference fun r c is declared => ?_) .nil)
    cases is
    cases declared
    exact firstIsObject

end Sample

theorem sampleReflected :
    (callUnhooked Sample.echoing (.live 0) none [none]).run Sample.wrapping =
        .ok (.error (.nullReceiver "java.lang.Object.pick"), Sample.wrapping) ∧
      ∃ passed, (passed = none ↔ Sample.pickHooked.descriptor.isStatic = true) ∧
        (Sample.pickHooked.descriptor.isStatic = false → passed = some Sample.first) ∧
        (callUnhooked Sample.echoing (.live 0) (some Sample.first) [some Sample.third, some Sample.first]).run
            Sample.wrapping = (do
          let result ← Action.mapError .runtime (Sample.echoing.serve (unhookedOf Sample.wrapping (.live 0)) passed
            [.int 7, .reference (some Sample.first)])
          Action.mapError .runtime (Boxing.wrapResult result) : Act Unit CallError (Option Ref)).run
            Sample.wrapping := by
  have known : method (.live 0) Sample.wrapping = .ok (Sample.pickHooked, Sample.wrapping) := rfl
  have described : Sample.pickHooked.descriptor.declaringClass.elim "?" Sample.wrapping.vm.classes.name ++ "." ++
      Sample.pickHooked.name = "java.lang.Object.pick" := by decide
  constructor
  · rw [← described]
    refine (reflectiveCall Sample.echoing rfl known (fun r is => ?_) fun r mem => ?_).1 _
      (.nullReceiver Sample.pickShorty rfl rfl)
    · cases is
    · simp at mem
  · refine ((reflectiveCall Sample.echoing rfl known (fun r is => ?_) fun r mem => ?_).2.1 _ _
      Sample.wrappingAdmits).2.2
    · cases is
      exact ⟨_, Sample.firstWrapped⟩
    · simp only [List.mem_cons, Option.some.injEq, List.not_mem_nil, or_false] at mem
      rcases mem with rfl | rfl
      · exact Sample.thirdWrapped
      · exact ⟨_, Sample.firstWrapped⟩

end Detour
