import Detour.Hook.Chain
import Mathlib.Data.List.Induction

/-! The order in which a chain calls its callbacks, told from the changes made to it. A callback stands where
its last registration that had an effect puts it, until it is removed; no change to one method is seen by
another. -/
namespace Detour.Chain

inductive Change where
  | register (m : MethodAddress) (id : Nat)
  | unregister (m : MethodAddress) (id : Nat)
  deriving DecidableEq, Repr

def callback (priority : Nat → Int) (id : Nat) : Callback := ⟨id, priority id⟩

def Change.apply (priority : Nat → Int) (c : Chain) : Change → Chain
  | register m id => (c.register m (callback priority id)).2
  | unregister m id => (c.unregister m (callback priority id)).2

def after (priority : Nat → Int) (changes : List Change) : Chain :=
  changes.foldl (Change.apply priority) empty

/-- Change number `i` registers a callback for a method, is told so, and is not undone. -/
structure Stands (priority : Nat → Int) (changes : List Change) (m : MethodAddress) (id i : Nat) : Prop where
  registers : changes[i]? = some (.register m id)
  told : ((after priority (changes.take i)).register m (callback priority id)).1 = true
  kept : ∀ j, i < j → changes[j]? ≠ some (.unregister m id)

def Precedes (priority : Nat → Int) (changes : List Change) (m : MethodAddress) (a b : Callback) : Prop :=
  b.priority < a.priority ∨ a.priority = b.priority ∧
    ∀ i j, Stands priority changes m a.id i → Stands priority changes m b.id j → i < j

structure Listed (priority : Nat → Int) (changes : List Change) (m : MethodAddress) (list : List Callback) :
    Prop where
  members : ∀ h, h ∈ list ↔ h = callback priority h.id ∧ ∃ i, Stands priority changes m h.id i
  once : list.Nodup
  ordered : list.Pairwise (Precedes priority changes m)

variable {c : Chain} {m n : MethodAddress} {g h : Callback} {list : List Callback}

theorem memInsert : g ∈ insert h list ↔ g = h ∨ g ∈ list := by
  induction list with
  | nil => simp [insert]
  | cons k ks ih =>
    unfold insert
    split
    next => exact List.mem_cons
    next => rw [List.mem_cons, ih, List.mem_cons, or_left_comm]

theorem insertPairwise {R : Callback → Callback → Prop} (holds : list.Pairwise R)
    (descends : list.Pairwise fun a b => b.priority ≤ a.priority)
    (left : ∀ g ∈ list, h.priority ≤ g.priority → R g h)
    (right : ∀ g ∈ list, g.priority < h.priority → R h g) : (insert h list).Pairwise R := by
  induction list with
  | nil => exact List.pairwise_singleton R h
  | cons k ks ih =>
    obtain ⟨first, rest⟩ := List.pairwise_cons.mp holds
    obtain ⟨under, descends'⟩ := List.pairwise_cons.mp descends
    unfold insert
    split
    next lower =>
      refine List.pairwise_cons.mpr ⟨fun g mem => right g mem ?_, holds⟩
      rcases List.mem_cons.mp mem with rfl | mem
      · exact lower
      · exact Int.lt_of_le_of_lt (under g mem) lower
    next high =>
      refine List.pairwise_cons.mpr ⟨fun g mem => ?_, ih rest descends' (fun g mem => left g (.tail k mem))
        fun g mem => right g (.tail k mem)⟩
      rcases memInsert.mp mem with rfl | mem
      · exact left k (.head ks) (Int.not_lt.mp high)
      · exact first g mem

theorem lookupOthers {lists : List (MethodAddress × List Callback)} :
    (lists.filter (·.1 ≠ m)).lookup n = if n = m then none else lists.lookup n := by
  induction lists with
  | nil => simp
  | cons l ls ih =>
    obtain ⟨k, list⟩ := l
    by_cases same : k = m
    · subst same
      rw [List.filter_cons_of_neg (by simp), ih]
      by_cases other : n = k <;> simp [List.lookup_cons, beq_eq_decide, other]
    · rw [List.filter_cons_of_pos (by simpa using same), List.lookup_cons, List.lookup_cons, ih]
      by_cases here : n = k
      · simp [here, same]
      · simp [beq_eq_decide, here]

theorem callbacksReplace : (c.replace m list).callbacks n = if n = m then list else c.callbacks n := by
  cases list with
  | nil =>
    change ((c.lists.filter (·.1 ≠ m)).lookup n).getD [] = _
    rw [lookupOthers]
    split <;> rfl
  | cons k ks =>
    change (((m, k :: ks) :: c.lists.filter (·.1 ≠ m)).lookup n).getD [] = _
    rw [List.lookup_cons, lookupOthers]
    by_cases here : n = m <;> simp [beq_eq_decide, here, callbacks]

def Has (c : Chain) (m : MethodAddress) (h : Callback) : Prop := ∃ g ∈ c.callbacks m, g.id = h.id

theorem registerOld (has : c.Has m h) : c.register m h = (false, c) := by
  unfold register
  rw [if_pos (by simpa [Has] using has)]

theorem registerNew (new : ¬ c.Has m h) :
    c.register m h = (true, c.replace m (insert h (c.callbacks m))) := by
  unfold register
  rw [if_neg (by simpa [Has] using new)]

theorem unregisterTells : (c.unregister m h).1 = true ↔ c.Has m h := by
  unfold unregister
  split <;> simp_all [Has]

theorem unregisterCallbacks : (c.unregister m h).2.callbacks n =
    if n = m then (c.callbacks n).filter (·.id ≠ h.id) else c.callbacks n := by
  unfold unregister
  split
  next =>
    rw [callbacksReplace]
    split
    next here => rw [here]
    next => rfl
  next absent =>
    split
    next here =>
      refine (List.filter_eq_self.mpr fun g mem => ?_).symm
      simp_all
    next => rfl

theorem registerElsewhere (apart : n ≠ m) : (c.register m h).2.callbacks n = c.callbacks n := by
  by_cases has : c.Has m h
  · rw [registerOld has]
  · rw [registerNew has, callbacksReplace, if_neg apart]

theorem unregisterElsewhere (apart : n ≠ m) : (c.unregister m h).2.callbacks n = c.callbacks n := by
  rw [unregisterCallbacks, if_neg apart]

variable {priority : Nat → Int} {changes : List Change} {change : Change} {id i : Nat}

theorem afterSnoc : after priority (changes ++ [change]) = change.apply priority (after priority changes) := by
  simp [after]

theorem Stands.early (stands : Stands priority changes m id i) : i < changes.length :=
  (List.getElem?_eq_some_iff.mp stands.registers).1

theorem standsSnoc : Stands priority (changes ++ [change]) m id i ↔
    Stands priority changes m id i ∧ change ≠ .unregister m id ∨
      i = changes.length ∧ change = .register m id ∧
        ((after priority changes).register m (callback priority id)).1 = true := by
  constructor
  · intro stands
    rcases Nat.lt_or_ge i changes.length with early | late
    · refine .inl ⟨⟨?_, ?_, fun j later => ?_⟩, fun removes => ?_⟩
      · rw [← List.getElem?_append_left early]
        exact stands.registers
      · rw [← List.take_append_of_le_length (Nat.le_of_lt early)]
        exact stands.told
      · intro there
        refine stands.kept j later ?_
        rw [List.getElem?_append_left (List.getElem?_eq_some_iff.mp there).1]
        exact there
      · exact stands.kept changes.length early (by simp [removes])
    · have last : i = changes.length := by
        have bound := stands.early
        simp only [List.length_append, List.length_singleton] at bound
        omega
      subst last
      refine .inr ⟨rfl, ?_, ?_⟩
      · simpa using stands.registers
      · simpa using stands.told
  · rintro (⟨stands, other⟩ | ⟨rfl, rfl, told⟩)
    · refine ⟨?_, ?_, fun j later there => ?_⟩
      · rw [List.getElem?_append_left stands.early]
        exact stands.registers
      · rw [List.take_append_of_le_length (Nat.le_of_lt stands.early)]
        exact stands.told
      · rcases Nat.lt_trichotomy j changes.length with before | rfl | behind
        · rw [List.getElem?_append_left before] at there
          exact stands.kept j later there
        · exact other (by simpa using there)
        · rw [List.getElem?_eq_none (by simpa using Nat.succ_le_of_lt behind)] at there
          cases there
    · refine ⟨by simp, by simpa using told, fun j later there => ?_⟩
      rw [List.getElem?_eq_none (by simpa using Nat.succ_le_of_lt later)] at there
      cases there

theorem Listed.hasIff (listed : Listed priority changes m (c.callbacks m)) :
    c.Has m (callback priority id) ↔ callback priority id ∈ c.callbacks m := by
  constructor
  · rintro ⟨g, mem, same⟩
    have is := ((listed.members g).mp mem).1
    rw [show g.id = id from same] at is
    exact is ▸ mem
  · exact fun mem => ⟨_, mem, rfl⟩

theorem Listed.same (listed : Listed priority changes m list) (keeps : ∀ id, change ≠ .unregister m id)
    (adds : ∀ id, change = .register m id →
      ((after priority changes).register m (callback priority id)).1 = false) :
    Listed priority (changes ++ [change]) m list := by
  have stands (id i : Nat) :
      Stands priority (changes ++ [change]) m id i ↔ Stands priority changes m id i := by
    refine standsSnoc.trans ⟨?_, fun old => .inl ⟨old, keeps id⟩⟩
    rintro (⟨old, _⟩ | ⟨_, registers, told⟩)
    · exact old
    · cases told.symm.trans (adds id registers)
  refine ⟨fun h => ?_, listed.once, listed.ordered.imp fun before => ?_⟩
  · simp only [listed.members h, stands]
  · simpa only [Precedes, stands] using before

theorem standsRegistered (new : ¬ (after priority changes).Has m (callback priority id)) {k : Nat} :
    Stands priority (changes ++ [.register m id]) m k i ↔
      Stands priority changes m k i ∨ i = changes.length ∧ k = id := by
  have told : ((after priority changes).register m (callback priority id)).1 = true := by rw [registerNew new]
  rw [standsSnoc]
  constructor
  · rintro (⟨old, _⟩ | ⟨rfl, same, _⟩)
    · exact .inl old
    · cases same
      exact .inr ⟨rfl, rfl⟩
  · rintro (old | ⟨rfl, rfl⟩)
    · exact .inl ⟨old, nofun⟩
    · exact .inr ⟨rfl, rfl, told⟩

theorem standsUnregistered {k : Nat} : Stands priority (changes ++ [.unregister m id]) m k i ↔
    Stands priority changes m k i ∧ k ≠ id := by
  rw [standsSnoc]
  constructor
  · rintro (⟨old, other⟩ | ⟨_, same, _⟩)
    · exact ⟨old, fun same => other (by rw [same])⟩
    · cases same
  · rintro ⟨old, other⟩
    refine .inl ⟨old, fun same => ?_⟩
    cases same
    exact other rfl

theorem Listed.register (listed : Listed priority changes m ((after priority changes).callbacks m))
    (new : ¬ (after priority changes).Has m (callback priority id)) :
    Listed priority (changes ++ [.register m id]) m
      (insert (callback priority id) ((after priority changes).callbacks m)) := by
  have fresh (i : Nat) : ¬ Stands priority changes m id i := fun old =>
    new (listed.hasIff.mpr ((listed.members _).mpr ⟨rfl, i, old⟩))
  have apart : ∀ g ∈ (after priority changes).callbacks m, g.id ≠ id := fun g mem same => new ⟨g, mem, same⟩
  have older {g : Callback} {i : Nat} (mem : g ∈ (after priority changes).callbacks m)
      (stands : Stands priority (changes ++ [.register m id]) m g.id i) : Stands priority changes m g.id i :=
    ((standsRegistered new).mp stands).resolve_right fun last => apart g mem last.2
  have descends : ((after priority changes).callbacks m).Pairwise fun a b => b.priority ≤ a.priority :=
    listed.ordered.imp fun before => before.elim Int.le_of_lt fun tie => Int.le_of_eq tie.1.symm
  refine ⟨fun h => ?_, ?_, ?_⟩
  · rw [memInsert, listed.members]
    constructor
    · rintro (rfl | ⟨is, i, old⟩)
      · exact ⟨rfl, _, (standsRegistered new).mpr (.inr ⟨rfl, rfl⟩)⟩
      · exact ⟨is, i, (standsRegistered new).mpr (.inl old)⟩
    · rintro ⟨is, i, standing⟩
      rcases (standsRegistered new).mp standing with old | ⟨_, same⟩
      · exact .inr ⟨is, i, old⟩
      · exact .inl (same ▸ is)
  · exact insertPairwise listed.once descends (fun g mem _ same => apart g mem (congrArg Callback.id same))
      fun g mem _ same => apart g mem (congrArg Callback.id same.symm)
  · refine insertPairwise (listed.ordered.imp_of_mem fun {a b} memA memB before => ?_) descends
      (fun g mem above => ?_) fun g _ lower => .inl lower
    · exact before.imp_right fun ⟨tie, order⟩ =>
        ⟨tie, fun i j first second => order i j (older memA first) (older memB second)⟩
    · refine (Int.lt_or_eq_of_le above).imp_right fun tie => ⟨tie.symm, fun i j first second => ?_⟩
      have last := ((standsRegistered new).mp second).resolve_left (fresh j)
      exact last.1 ▸ (older mem first).early

theorem Listed.unregister (listed : Listed priority changes m list) :
    Listed priority (changes ++ [.unregister m id]) m (list.filter (·.id ≠ id)) := by
  refine ⟨fun h => ?_, listed.once.filter _, (listed.ordered.filter _).imp fun {a b} before => ?_⟩
  · simp only [List.mem_filter, listed.members, standsUnregistered, decide_eq_true_eq, exists_and_right, and_assoc]
  · refine before.imp_right fun ⟨tie, order⟩ => ⟨tie, fun i j first second => ?_⟩
    exact order i j (standsUnregistered.mp first).1 (standsUnregistered.mp second).1

theorem listedEmpty : Listed priority [] m [] where
  members h := by
    refine ⟨nofun, fun ⟨_, i, stands⟩ => ?_⟩
    exact absurd stands.early (Nat.not_lt_zero i)
  once := .nil
  ordered := .nil

theorem Listed.step (listed : Listed priority changes m ((after priority changes).callbacks m)) :
    Listed priority (changes ++ [change]) m ((after priority (changes ++ [change])).callbacks m) := by
  rw [afterSnoc]
  cases change with
  | register n id =>
    simp only [Change.apply]
    by_cases here : m = n
    · subst here
      by_cases has : (after priority changes).Has m (callback priority id)
      · rw [registerOld has]
        refine listed.same nofun fun k same => ?_
        cases same
        rw [registerOld has]
      · rw [registerNew has, callbacksReplace, if_pos rfl]
        exact listed.register has
    · rw [registerElsewhere here]
      refine listed.same nofun fun k same => ?_
      cases same
      exact absurd rfl here
  | unregister n id =>
    simp only [Change.apply]
    rw [unregisterCallbacks]
    by_cases here : m = n
    · subst here
      rw [if_pos rfl]
      exact listed.unregister
    · rw [if_neg here]
      refine listed.same (fun k same => ?_) nofun
      cases same
      exact here rfl

theorem listedAfter (changes : List Change) (m : MethodAddress) :
    Listed priority changes m ((after priority changes).callbacks m) := by
  -- From the back, as whether a registration stands depends on the changes after it.
  induction changes using List.reverseRecOn with
  | nil => exact listedEmpty
  | append_singleton changes change ih => exact ih.step

theorem Stands.takeStands {j : Nat} (stands : Stands priority changes m id i) (later : i < j) :
    Stands priority (changes.take j) m id i where
  registers := by
    rw [List.getElem?_take_of_lt later]
    exact stands.registers
  told := by
    rw [List.take_take, Nat.min_eq_left (Nat.le_of_lt later)]
    exact stands.told
  kept k between there := by
    rw [List.getElem?_take] at there
    split at there
    next => exact stands.kept k between there
    next => cases there

theorem Stands.latest {j : Nat} (stands : Stands priority changes m id i) (later : i < j) :
    ((after priority (changes.take j)).register m (callback priority id)).1 = false := by
  have listed := @listedAfter priority (changes.take j) m
  have mem := (listed.members (callback priority id)).mpr ⟨rfl, i, stands.takeStands later⟩
  rw [registerOld (listed.hasIff.mpr mem)]

theorem callbacksStandInOrder (priority : Nat → Int) (changes : List Change) (m : MethodAddress) :
    Listed priority changes m ((after priority changes).callbacks m) ∧
      (∀ id i j, Stands priority changes m id i → i < j →
        ((after priority (changes.take j)).register m (callback priority id)).1 = false) ∧
      ∀ id,
        (callback priority id ∈ (after priority changes).callbacks m →
          (after priority changes).register m (callback priority id) = (false, after priority changes)) ∧
        (callback priority id ∉ (after priority changes).callbacks m →
          ((after priority changes).register m (callback priority id)).1 = true) ∧
        (((after priority changes).unregister m (callback priority id)).1 = true ↔
          callback priority id ∈ (after priority changes).callbacks m) ∧
        ∀ n, n ≠ m →
          ((after priority changes).register m (callback priority id)).2.callbacks n =
            (after priority changes).callbacks n ∧
          ((after priority changes).unregister m (callback priority id)).2.callbacks n =
            (after priority changes).callbacks n := by
  have listed := @listedAfter priority changes m
  refine ⟨listed, fun id i j stands later => stands.latest later, fun id => ⟨fun mem => ?_, fun absent => ?_,
    unregisterTells.trans listed.hasIff, fun n apart => ⟨registerElsewhere apart, unregisterElsewhere apart⟩⟩⟩
  · exact registerOld (listed.hasIff.mpr mem)
  · rw [registerNew fun has => absent (listed.hasIff.mp has)]

namespace Sample

def ranked : Nat → Int
  | 2 => 90
  | _ => 50

def returning : List Change :=
  [.register (.live 0) 0, .register (.live 0) 1, .register (.live 1) 0, .register (.live 0) 2,
    .unregister (.live 0) 0, .register (.live 0) 0]

theorem returnsBehind :
    ((after ranked returning).callbacks (.live 0)).map (·.id) = [2, 1, 0] ∧
      (after ranked returning).register (.live 0) (callback ranked 0) = (false, after ranked returning) ∧
      ((after ranked returning).unregister (.live 0) (callback ranked 0)).2.callbacks (.live 1) =
        [callback ranked 0] := by
  have mem : callback ranked 0 ∈ (after ranked returning).callbacks (.live 0) := by decide
  have other : (after ranked returning).callbacks (.live 1) = [callback ranked 0] := by decide
  obtain ⟨-, -, each⟩ := callbacksStandInOrder ranked returning (.live 0)
  obtain ⟨old, -, -, elsewhere⟩ := each 0
  exact ⟨by decide, old mem, (elsewhere (.live 1) (by decide)).2.trans other⟩

end Sample
end Detour.Chain
