import Detour.Proofs.ReflectiveCalls
import Detour.Proofs.SuperChains

/-! Calls of the inherited implementation, at every point where they can end. The method is looked for in the
superclass and above it; where the one found or the superclass asks for it, the superclass is initialized
first; then the receiver is checked, and the method found is called through its entry point on the objects
that were given, wherever they lie by then. -/
namespace Detour

open World

variable {σ : Type} {T : Fault → Prop} {w x y : World σ} {s : ClassId} {cls : Class}

inductive Unready (w : World σ) (cls : Class) : RuntimeError → Prop
  | fails (fails : cls.initFails = true) (fresh : cls.initialized = false) :
    Unready w cls (.classInitFailed cls.name)
  | refused (due : w.disturbed.lookup .init = some 0) : Unready w cls (.outOfMemory Service.init.name)

theorem Unready.same {e : RuntimeError} (unready : Unready w cls e) (disturbed : x.disturbed = w.disturbed) :
    Unready x cls e := by
  cases unready with
  | fails fails fresh => exact .fails fails fresh
  | refused due => exact .refused (disturbed ▸ due)

theorem serveDue (v : Service) :
    Action.Ends T (serve v) w fun r x => x = { w with disturbed := x.disturbed } ∧
      ∀ e, r = .error e → e = .outOfMemory v.name ∧ w.disturbed.lookup v = some 0 := by
  unfold serve
  simp only [Action.endsBind, Action.endsGet, Except.ok.injEq, forall_eq', reduceCtorEq, false_implies,
    implies_true, and_true]
  cases due : w.disturbed.lookup v with
  | none => simp
  | some left => cases left <;> simp [eq_comm]

theorem initClassStands (found : w.vm.classes.get? s = some cls) :
    Action.Ends (fun f => f = .referencesExhausted ∧ cls.initialized = false) (World.initClass s) w fun r x =>
      Calm w x ∧ w.vm.classes.Kin x.vm.classes ∧
        (r = .ok () → x.vm.classes.isInitialized s = true ∧ (cls.initialized = true ∨ cls.initFails = false)) ∧
        ∀ e, r = .error e → Unready w cls e := by
  refine Action.endsBind.mpr ((serveDue .init).weaken fun r v ⟨same, due⟩ => ?_)
  have vm : v.vm = w.vm := by rw [same]
  have calm : Calm w v := ⟨vm ▸ .refl, by rw [vm]; exact same⟩
  have there : v.vm.classes.get? s = some cls := vm ▸ found
  refine ⟨fun _ _ => vmActionEnds.mpr ?_, fun e failed => ⟨calm, vm ▸ .refl _, nofun, fun f is => ?_⟩⟩
  · have stands : Action.Ends (fun f => f = .referencesExhausted ∧ cls.initialized = false) _ v.vm _ :=
      Vm.initClassStands there fun fresh => ⟨rfl, fresh⟩
    have initializes := Step.Ends.both stands (Vm.initClassEnds (T := fun _ => True) trivial fun _ => trivial)
    refine initializes.weaken fun r after ⟨⟨kin, starts, fails⟩, more, _, done⟩ => ?_
    refine ⟨calm.trans (.ofVm more), vm ▸ kin, fun passed => ⟨done passed, starts passed⟩, fun e failed => ?_⟩
    obtain ⟨rfl, fails, fresh⟩ := fails e failed
    exact .fails fails fresh
  · cases is
    obtain ⟨rfl, due⟩ := due e failed
    exact .refused due

abbrev Since (w x : World σ) : Prop := Served (fun h => w.vm.handles.next ≤ h.id) (fun _ => True) w x

structure Readied (w : World σ) (s : ClassId) (cls : Class) (needs : Bool) (x : World σ) : Prop where
  since : Since w x
  kin : w.vm.classes.Kin x.vm.classes
  ready : needs = true →
    x.vm.classes.isInitialized s = true ∧ (cls.initialized = true ∨ cls.initFails = false)
  idle : needs = false → Handled w x

def World.Needs (w : World σ) (s : ClassId) (index : Nat) : Bool :=
  (w.vm.methods[index]?).any (·.descriptor.isStatic) || w.vm.classes.isInterface s

/-- How an inherited call of a method ends, with object `k` of class `q` as its receiver and the objects `os`
as its arguments. -/
inductive Inherits (invoke : Invoker σ) (w : World σ) (info : Method) (s : ClassId) (cls : Class) (k : Nat)
    (q : ClassId) (os : List (Option Nat)) : Except Fault (Except CallError (Option Ref) × World σ) → Prop
  | missing {y : World σ}
    (absent : ∀ owner ∈ w.vm.classes.lineage s, ∀ other ∈ w.vm.methods,
      ¬ other.Declares owner info.name info.signature)
    (idle : Handled w y) :
    Inherits invoke w info s cls k q os
      (.ok (.error (.runtime (.noSuchMethod (w.vm.classes.name s) info.name info.signature)), y))
  | exhausted {index : Nat} (offered : w.vm.Offered info.name info.signature (w.vm.classes.lineage s) index)
    (needs : w.Needs s index = true) (fresh : cls.initialized = false) (short : ¬ w.vm.heap.Room 1) :
    Inherits invoke w info s cls k q os (.error .referencesExhausted)
  | unready {index : Nat} {e : RuntimeError} {y : World σ}
    (offered : w.vm.Offered info.name info.signature (w.vm.classes.lineage s) index)
    (needs : w.Needs s index = true) (fails : Unready w cls e) (since : Since w y) :
    Inherits invoke w info s cls k q os (.ok (.error (.runtime e), y))
  | foreign {index : Nat} {y : World σ}
    (offered : w.vm.Offered info.name info.signature (w.vm.classes.lineage s) index)
    (readied : Readied w s cls (w.Needs s index) y) (apart : w.vm.classes.isAssignable q s = false) :
    Inherits invoke w info s cls k q os
      (.ok (.error (.receiverMismatch (w.vm.classes.name s) (w.vm.classes.name q)), y))
  | called {index : Nat} {x : World σ} {hs : List Handle} {t : Ref} {ts : List (Option Ref)}
    (offered : w.vm.Offered info.name info.signature (w.vm.classes.lineage s) index)
    (readied : Readied w s cls (w.Needs s index) x) (fits : w.vm.classes.isAssignable q s = true)
    (receiver : x.vm.heap.Denotes (some t) (some k)) (args : List.Forall₂ x.vm.heap.Denotes ts os)
    (distinct : hs.Nodup) (pins : ∀ h ∈ hs, Fresh w h x ∧ ∃ o, x.vm.Held h o) :
    Inherits invoke w info s cls k q os ((do
      let outcome ← (callChecked invoke (.live index) (.live index) (some t) ts).attempt
      releaseAll hs
      return outcome : Machine σ (Except CallError (Option Ref))) x)

section Stages

variable {invoke : Invoker σ} {m : MethodAddress} {info : Method} {index k : Nat} {q : ClassId} {h : Handle}
  {hs : List Handle} {o : Option Nat} {os : List (Option Nat)}

theorem Retained.since (retained : Retained w o os h hs x) (calm : Calm x y) : Since w y :=
  Calm.served (retained.calm.trans calm)

theorem Retained.held (retained : Retained w o os h hs x) (calm : Calm x y) :
    ∀ g ∈ hs ++ [h], Fresh w g y ∧ ∃ o, y.vm.Held g o := by
  intro g mem
  obtain ⟨o, held⟩ := retained.live g mem
  exact ⟨(retained.fresh g mem).after calm, o, Vm.Calm.holds calm.vm held⟩

theorem Retained.resolves {name signature : String} (retained : Retained w o os h hs x) :
    x.vm.resolve s name signature = w.vm.resolve s name signature := by
  unfold Vm.resolve
  rw [retained.handled.classes, retained.handled.methods]

theorem Retained.released (retained : Retained w o os h hs x) (calm : Calm x y)
    (result : Except CallError (Option Ref)) :
    ∃ z, (do
      releaseAll (hs ++ [h])
      return result : Machine σ (Except CallError (Option Ref))) y = .ok (result, z) ∧ Since w z ∧ Handled y z := by
  have releases := releaseAllEnds (T := fun _ => False) retained.distinct fun g mem => (retained.held calm g mem).2
  obtain ⟨_, z, gone, ⟨served, _⟩, handled⟩ := (releases.both (Handles.releaseAll (hs ++ [h]) y)).sure
  have since : Since w z :=
    (retained.since calm).trans (served.widen (fun g mem => (retained.fresh g mem).1) fun _ _ => trivial)
  exact ⟨z, Step.bindRun gone, since, handled⟩

theorem Readied.released {needs : Bool} {z : World σ} (readied : Readied w s cls needs y) (since : Since w z)
    (handled : Handled y z) : Readied w s cls needs z where
  since
  kin := handled.classes ▸ readied.kin
  ready := handled.classes ▸ readied.ready
  idle known := (readied.idle known).trans handled

theorem callFoundForeign {target : MethodAddress} (held : x.vm.Held h (some k))
    (args : List.Forall₂ x.vm.Held hs os) (faithful : x.lost = none) (classed : x.vm.heap.Classed k q)
    (apart : x.vm.classes.isAssignable q s = false) :
    (callFound invoke m target s h hs).run x =
      .ok (.error (.receiverMismatch (x.vm.classes.name s) (x.vm.classes.name q)), x) := by
  obtain ⟨a, _, resolved, rfl, denotes⟩ := (resolveEnds (T := fun _ => False) held faithful).sure
  obtain ⟨ts, _, given, rfl, _⟩ := (resolveAllEnds (T := fun _ => False) args faithful).sure
  cases a with
  | none => simp at denotes
  | some t =>
    obtain ⟨o, there, known⟩ := classed
    have is : World.OfClass _ t q := ⟨o, (Heap.denotesGet denotes).trans there, known⟩
    have named {v : World σ} : className s v = .ok (v.vm.classes.name s, v) := rfl
    unfold callFound
    rw [Action.liftBindRun resolved]
    dsimp only
    rw [Action.liftBindRun given, Action.liftBindRun (isInstanceRun is s), apart, if_neg Bool.false_ne_true,
      Action.liftBindRun named, Action.liftBindRun (typeNameRun is)]
    rfl

end Stages

section Calls

variable {m : MethodAddress} {d : Descriptor} {info : Method} {c : ClassId} {r : Ref} {k : Nat} {q : ClassId}
  {rs : List (Option Ref)} {os : List (Option Nat)} {h : Handle} {hs : List Handle} {index : Nat}

theorem inheritsFound (invoke : Invoker σ) (retained : Retained w (some k) os h hs x) (calm : Calm x y)
    (offered : w.vm.Offered info.name info.signature (w.vm.classes.lineage s) index)
    (readied : Readied w s cls (w.Needs s index) y) (faithful : w.lost = none) (classed : w.vm.heap.Classed k q) :
    Inherits invoke w info s cls k q os ((do
      let outcome ← (callFound invoke m (.live index) s h hs).attempt
      releaseAll (hs ++ [h])
      return outcome : Machine σ (Except CallError (Option Ref))) y) := by
  have held : y.vm.Held h (some k) := Vm.Calm.holds calm.vm retained.receiver
  have args : List.Forall₂ y.vm.Held hs os := retained.args.imp fun _ _ => Vm.Calm.holds calm.vm
  have faithful : y.lost = none := calm.lost.trans (retained.calm.lost.trans faithful)
  have classed : y.vm.heap.Classed k q := (retained.calm.trans calm).vm.classed classed
  have kin := readied.kin
  cases fits : w.vm.classes.isAssignable q s with
  | false =>
    have ran : (callFound invoke m (.live index) s h hs).attempt y = _ :=
      callFoundForeign held args faithful classed ((kin.assignable q s).trans fits)
    obtain ⟨z, gone, since, handled⟩ := retained.released calm
      (.error (.receiverMismatch (y.vm.classes.name s) (y.vm.classes.name q)))
    rw [(Step.bindRun ran).trans gone, kin.name, kin.name]
    exact .foreign offered (readied.released since handled) fits
  | true =>
    obtain ⟨t, ts, receiver, given, run⟩ : ∃ t ts, y.vm.heap.Denotes (some t) (some k) ∧
        List.Forall₂ y.vm.heap.Denotes ts os ∧ (callFound invoke m (.live index) s h hs).attempt y =
          (callChecked invoke (.live index) (.live index) (some t) ts).attempt y :=
      callFoundRun held args faithful fun t denotes =>
        ⟨k, q, denotes, classed, (kin.assignable q s).trans fits⟩
    rw [Step.bindSame run]
    exact .called offered readied fits receiver given retained.distinct (retained.held calm)

theorem inheritsMissing (invoke : Invoker σ) (retained : Retained w (some k) os h hs x)
    (known : method m x = .ok (info, x)) (missing : w.vm.resolve s info.name info.signature = none) :
    Inherits invoke w info s cls k q os ((do
      let outcome ← (callPinned invoke m s h hs).attempt
      releaseAll (hs ++ [h])
      return outcome : Machine σ (Except CallError (Option Ref))) x) := by
  have ran : (callPinned invoke m s h hs).attempt x = _ := callPinnedMissing known (retained.resolves.trans missing)
  obtain ⟨y, gone, _, last⟩ := retained.released (.refl x)
    (.error (.runtime (.noSuchMethod (x.vm.classes.name s) info.name info.signature)))
  rw [(Step.bindRun ran).trans gone, retained.handled.classes]
  exact .missing (Vm.resolveNoneIff.mp missing) (retained.handled.trans last)

theorem inheritsResolved (invoke : Invoker σ) (retained : Retained w (some k) os h hs x)
    (known : method m x = .ok (info, x)) (resolved : w.vm.resolve s info.name info.signature = some index)
    (there : w.vm.classes.get? s = some cls) (faithful : w.lost = none) (classed : w.vm.heap.Classed k q) :
    Inherits invoke w info s cls k q os ((do
      let outcome ← (callPinned invoke m s h hs).attempt
      releaseAll (hs ++ [h])
      return outcome : Machine σ (Except CallError (Option Ref))) x) := by
  have handled := retained.handled
  have offered := Vm.resolveIff.mp resolved
  obtain ⟨target, at_, _⟩ := offered.declared
  have found : x.descriptor? (.live index) = some target.descriptor := by
    simp [descriptor?, handled.methods, at_]
  have parts : (callPinned invoke m s h hs).attempt x = _ :=
    callPinnedParts known (retained.resolves.trans resolved) found
  have needs : (target.descriptor.isStatic || x.vm.classes.isInterface s) = w.Needs s index := by
    rw [Needs, at_, handled.classes, Option.any_some]
  rw [needs] at parts
  have kin : w.vm.classes.Kin x.vm.classes := handled.classes ▸ .refl _
  cases asks : w.Needs s index with
  | false =>
    rw [asks, if_neg Bool.false_ne_true] at parts
    rw [Step.bindSame parts]
    refine inheritsFound invoke retained (.refl x) offered ?_ faithful classed
    exact {
      since := retained.since (.refl x)
      kin
      ready := fun needed => absurd (asks.symm.trans needed) Bool.false_ne_true
      idle := fun _ => handled }
  | true =>
    rw [asks, if_pos rfl, Action.runMapError] at parts
    have stands := (Costs.initClass s).paid (initClassStands (w := x) (handled.classes ▸ there))
    rcases stands.either with ⟨f, failed, ⟨rfl, fresh⟩, short⟩ | ⟨result, y, ran, ⟨calm, more, ready, fails⟩, _⟩
    · rw [Step.bindFault (parts.trans (Step.bindFault failed))]
      exact .exhausted offered asks fresh (handled.heap ▸ short rfl)
    · cases result with
      | error e =>
        obtain ⟨z, gone, since, _⟩ := retained.released calm (.error (.runtime e))
        have ended := parts.trans (Step.bindRun ran)
        rw [(Step.bindRun ended).trans gone]
        exact .unready offered asks ((fails e rfl).same handled.disturbed.symm) since
      | ok =>
        rw [Step.bindSame (parts.trans (Step.bindRun ran))]
        refine inheritsFound invoke retained calm offered ?_ faithful classed
        exact {
          since := retained.since calm
          kin := kin.trans more
          ready := fun _ => ready rfl
          idle := fun idle => absurd (idle.symm.trans asks) Bool.false_ne_true }

theorem offeredAbove {name signature : String} (genuine : w.Genuine) (below : s.index < c.index)
    (offered : w.vm.Offered name signature (w.vm.classes.lineage s) index) {a : MethodAddress} {e : Descriptor}
    (at_ : w.descriptor? a = some e) (declared : e.declaringClass = some c) : a ≠ .live index := by
  rintro rfl
  obtain ⟨target, there, inherits⟩ := offered.declared
  obtain ⟨_, again, rfl⟩ := Option.map_eq_some_iff.mp at_
  cases there.symm.trans again
  cases declared.symm.trans (genuine index target there).declared
  exact Nat.not_le_of_lt below (ClassTable.lineageBelow inherits)

theorem inheritedCall (invoke : Invoker σ) (genuine : w.Genuine) (faithful : w.lost = none)
    (found : w.descriptor? m = some d) (known : method m w = .ok (info, w)) (dynamic : d.isStatic = false)
    (declared : d.declaringClass = some c) (above : w.vm.classes.superclass? c = some s)
    (below : s.index < c.index) (there : w.vm.classes.get? s = some cls)
    (receiver : w.vm.heap.Denotes (some r) (some k)) (classed : w.vm.heap.Classed k q)
    (args : List.Forall₂ w.vm.heap.Denotes rs os) :
    Inherits invoke w info s cls k q os ((callInherited invoke m (some r) rs).run w) ∧
      ∀ index, w.vm.Offered info.name info.signature (w.vm.classes.lineage s) index →
        ∀ a e, w.descriptor? a = some e → e.declaringClass = some c → a ≠ .live index := by
  constructor
  · obtain ⟨h, hs, x, retained, run⟩ := callInheritedRun invoke found dynamic declared above receiver args
    obtain ⟨e, at_, coded⟩ := methodIff.mp known
    have known : method m x = .ok (info, x) :=
      methodIff.mpr ⟨e, (retained.calm.descriptor m).trans at_, retained.handled.methods ▸ coded⟩
    rw [run]
    cases resolved : w.vm.resolve s info.name info.signature with
    | none => exact inheritsMissing invoke retained known resolved
    | some index => exact inheritsResolved invoke retained known resolved there faithful classed
  · exact fun index offered a e at_ declared => offeredAbove genuine below offered at_ declared

end Calls

namespace Sample

def lowerHooked : Method := { pickIn .string 1 with descriptor := lower.patched .compiledEntry 0 }
def objectClass : Class := ⟨"java.lang.Object", none, [], false, true, false, 0⟩

theorem climbingGenuine : climbing.Genuine := by
  have start : Steady (.owning nobodys) empty := steadyStart .arm Layout.compiled fun _ own => own
  exact (climbingReached.leads start.ready).lasts.genuine (genuineStart .arm Layout.compiled [])

end Sample

theorem sampleInherited :
    Inherits (call Sample.ascending 2) Sample.climbing Sample.lowerHooked .object Sample.objectClass 0 .string
        [none, some 0]
        ((callInherited (call Sample.ascending 2) (.live 0) (some Sample.first) [none, some Sample.first]).run
          Sample.climbing) ∧
      ∀ index, Sample.climbing.vm.Offered "pick" "(IL;)L;" (Sample.climbing.vm.classes.lineage .object) index →
        ∀ a e, Sample.climbing.descriptor? a = some e → e.declaringClass = some .string → a ≠ .live index :=
  inheritedCall (call Sample.ascending 2) Sample.climbingGenuine rfl rfl rfl rfl rfl rfl (by decide) rfl
    Sample.firstString ⟨.instance .string, rfl, rfl⟩ (.cons trivial (.cons Sample.firstString .nil))

end Detour
