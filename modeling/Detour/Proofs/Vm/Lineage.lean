import Detour.Proofs.Services

/-! Class tables and what class initializers do to them. An initializer marks its class and counts its run;
who inherits from whom, and who may stand for whom, stays as it was. -/
namespace Detour

def Class.lasting (info : Class) : Class := { info with initialized := false, initCount := 0 }

namespace ClassTable

variable {t u v : ClassTable} {c d s : ClassId}

def Kin (t u : ClassTable) : Prop := ∀ c, (u.get? c).map Class.lasting = (t.get? c).map Class.lasting

namespace Kin

theorem refl (t : ClassTable) : t.Kin t := fun _ => rfl

theorem trans (first : t.Kin u) (second : u.Kin v) : t.Kin v := fun c => (second c).trans (first c)

theorem ofModify {f : Class → Class} (same : ∀ info, (f info).lasting = info.lasting) : t.Kin (t.modify c f) := by
  intro d
  simp only [get?, modify, List.getElem?_modify]
  cases t.classes[d.index]? with
  | none => rfl
  | some info => split <;> simp [same]

theorem reads {α : Type} (kin : t.Kin u) (c : ClassId) (read : Option Class → α)
    (lasts : ∀ o, read (o.map Class.lasting) = read o) : read (u.get? c) = read (t.get? c) := by
  rw [← lasts, kin, lasts]

theorem superclass (kin : t.Kin u) (c : ClassId) : u.superclass? c = t.superclass? c :=
  kin.reads c (·.bind (·.superclass)) fun o => by cases o <;> rfl

theorem name (kin : t.Kin u) (c : ClassId) : u.name c = t.name c :=
  kin.reads c (·.elim "?" (·.name)) fun o => by cases o <;> rfl

theorem fails (kin : t.Kin u) (c : ClassId) :
    (u.get? c).any (·.initFails) = (t.get? c).any (·.initFails) :=
  kin.reads c (·.any (·.initFails)) fun o => by cases o <;> rfl

theorem lineage (kin : t.Kin u) (c : ClassId) : u.lineage c = t.lineage c := by
  fun_induction ClassTable.lineage t c with
  | case1 c top => rw [ClassTable.lineage, kin.superclass, top]
  | case2 c s above below ih =>
    rw [ClassTable.lineage, kin.superclass, above]
    exact (if_pos below).trans (congrArg _ ih)
  | case3 c s above past =>
    rw [ClassTable.lineage, kin.superclass, above]
    exact if_neg past

theorem assignable (kin : t.Kin u) (c d : ClassId) : u.isAssignable c d = t.isAssignable c d := by
  unfold isAssignable
  rw [kin.lineage]
  congr 1
  funext b
  exact congrArg _ (kin.reads b (·.any fun info => info.interfaces.contains d) fun o => by cases o <;> rfl)

end Kin

theorem lineageHead (t : ClassTable) (c : ClassId) : ∃ above, t.lineage c = c :: above := by
  rw [lineage]
  split
  next => exact ⟨[], rfl⟩
  next s _ =>
    split
    next => exact ⟨t.lineage s, rfl⟩
    next => exact ⟨[], rfl⟩

theorem lineageUp (above : t.superclass? c = some s) (below : s.index < c.index) (inherits : c ∈ t.lineage d) :
    s ∈ t.lineage d := by
  fun_induction ClassTable.lineage t d with
  | case1 d top =>
    obtain rfl := List.mem_singleton.mp inherits
    exact nomatch top.symm.trans above
  | case2 d e parent _ ih =>
    rcases List.mem_cons.mp inherits with rfl | later
    · cases parent.symm.trans above
      obtain ⟨rest, is⟩ := t.lineageHead s
      exact List.mem_cons_of_mem _ (is ▸ List.mem_cons_self ..)
    · exact List.mem_cons_of_mem _ (ih later)
  | case3 d e parent past =>
    obtain rfl := List.mem_singleton.mp inherits
    cases parent.symm.trans above
    exact (past below).elim

theorem lineageBelow (inherits : c ∈ t.lineage d) :
    c.index ≤ d.index := by
  fun_induction ClassTable.lineage t d with
  | case1 d top =>
    obtain rfl := List.mem_singleton.mp inherits
    exact Nat.le_refl _
  | case2 d e above below ih =>
    rcases List.mem_cons.mp inherits with rfl | later
    · exact Nat.le_refl _
    · exact Nat.le_trans (ih later) (Nat.le_of_lt below)
  | case3 d e above past =>
    obtain rfl := List.mem_singleton.mp inherits
    exact Nat.le_refl _

theorem lineageAssignable (inherits : c ∈ t.lineage d) : t.isAssignable d c = true :=
  List.any_eq_true.mpr ⟨c, inherits, by simp⟩

end ClassTable

theorem Vm.initClassStands {T : Fault → Prop} {vm : Vm} {c : ClassId} {info : Class}
    (found : vm.classes.get? c = some info) (full : info.initialized = false → T .referencesExhausted) :
    Action.Ends T (initClass c) vm fun r x => vm.classes.Kin x.classes ∧
      (r = .ok () → info.initialized = true ∨ info.initFails = false) ∧
      ∀ e, r = .error e → e = .classInitFailed info.name ∧ info.initFails = true ∧ info.initialized = false := by
  unfold initClass classInfo
  rw [Action.endsLiftedBind]
  simp only [Step.endsBind, Step.endsGet, Step.endsRequire]
  refine ⟨fun info' again => ?_, by simp [found]⟩
  cases found.symm.trans again
  cases before : info.initialized with
  | true => exact ⟨.refl _, by simp, by simp⟩
  | false =>
    refine Action.endsLiftedBind.mpr ((collectEnds (full before)).weaken fun _ x collected => ?_)
    have started : vm.classes.Kin (x.classes.modify c fun i => { i with initCount := i.initCount + 1 }) :=
      collected.classes ▸ .ofModify fun _ => rfl
    simp only [Action.endsBind, Action.endsModify]
    refine ⟨fun _ _ => ?_, by simp⟩
    cases fails : info.initFails with
    | true =>
      simp only [if_true, Action.endsBind, Action.endsThrow]
      refine ⟨by simp, fun e same => ⟨started, by simp, fun f is => ?_⟩⟩
      cases same
      cases is
      exact ⟨rfl, trivial, trivial⟩
    | false => exact ⟨started.trans (.ofModify fun _ => rfl), fun _ => .inr rfl, by simp⟩

theorem Vm.initClassKin {T : Fault → Prop} {vm : Vm} (full : T .referencesExhausted) {c : ClassId} {info : Class}
    (found : vm.classes.get? c = some info) (starts : info.initFails = false) :
    Action.Ends T (initClass c) vm fun r x => r = .ok () ∧ vm.classes.Kin x.classes := by
  refine Step.Ends.weaken (initClassStands found fun _ => full) fun r x ⟨kin, _, fails⟩ => ⟨?_, kin⟩
  cases r with
  | ok => rfl
  | error e => exact nomatch starts.symm.trans (fails e rfl).2.1

end Detour
