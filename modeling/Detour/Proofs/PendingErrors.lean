import Detour.Proofs.CallbackChain

/-! The error of a call that callbacks surround. Unlike the result, it is in no handle: whoever is given it
is given the very reference that it was set with. That reference names the object until anything moves,
and no object afterwards. -/
namespace Detour

open World

variable {σ : Type} {p : Rights σ} {n : Nat} {w v x : World σ}

namespace Heap

variable {h after last : Heap} {r : Ref} {k : Nat}

def Later (h after : Heap) : Prop :=
  after.base = h.base ∧ h.objects.size ≤ after.objects.size ∨ h.next ≤ after.base

theorem Later.refl (h : Heap) : h.Later h := Or.inl ⟨rfl, Nat.le_refl _⟩

theorem Later.trans (first : h.Later after) (second : after.Later last) : h.Later last := by
  unfold Later next at *
  omega

def Outlasts (h : Heap) (r : Ref) (after : Heap) : Prop :=
  ∀ k, h.Denotes (some r) (some k) →
    after.base = h.base ∧ after.Denotes (some r) (some k) ∨ after.base ≠ h.base ∧ after.get? r = none

theorem Later.outlasts (later : h.Later after) (r : Ref) : h.Outlasts r after := by
  intro k denotes
  obtain ⟨at_, below⟩ := denotes
  rcases later with ⟨base, grown⟩ | moved
  · exact Or.inl ⟨base, by omega, by omega⟩
  · unfold next at moved
    refine Or.inr ⟨by omega, ?_⟩
    unfold get?
    rw [if_pos (by omega)]

end Heap

theorem Vm.Change.later {free still} {vm after : Vm} (change : Vm.Change free still vm after) :
    vm.heap.Later after.heap := by
  cases change with
  | relocated moved => exact Or.inr (Nat.le_of_eq (Heap.relocatedBase moved).1.symm)
  | allocated pushed =>
    obtain ⟨_, base, objects⟩ := Heap.pushedAt pushed
    exact Or.inl ⟨base, by simp [objects]⟩
  | stored => exact Or.inl ⟨rfl, by simp [Heap.set]⟩
  | _ => exact .refl _

theorem Vm.Changes.later {free still} {vm after : Vm} (changes : Vm.Changes free still vm after) :
    vm.heap.Later after.heap := by
  induction changes with
  | refl => exact .refl _
  | tail _ change ih => exact ih.trans change.later

theorem Leads.later (leads : Leads p n w x) : w.vm.heap.Later x.vm.heap := leads.bare.later

theorem Handled.later (handled : Handled w x) : w.vm.heap.Later x.vm.heap := handled.heap ▸ .refl _

namespace Chain

theorem laterSwaps (h : Heap) : SharedCall.Swaps fun (_ : List Handle) (w : World σ) => h.Later w.vm.heap :=
  fun _ _ _ _ _ later _ _ => later

variable {s t : SharedCall} {a b : View} {o : Option Standing} {e : CallError}

theorem Sets.edits (sets : Sets p n s w a o t x b) : Edits p n s w a t x b := by
  induction sets with
  | refl => exact .refl
  | runs _ leads spares ih => exact .runs ih leads spares
  | receives _ denotes set ih => exact .receives ih denotes set
  | replaces _ denotes set ih => exact .replaces ih denotes set
  | answers _ denotes set ih => exact .answers ih denotes set
  | fails _ set ih => exact .fails ih set

theorem Sets.later (sets : Sets p n s w a o t x b) : w.vm.heap.Later x.vm.heap :=
  sets.edits.keeps (laterSwaps _) (fun _ _ _ later leads _ => later.trans leads.later) (.refl _)

def SetIn (e : CallError) (v x : World σ) : Prop :=
  (∃ (s t : SharedCall) (w : World σ), s.failWith e w = .ok (t, v)) ∧ v.vm.heap.Later x.vm.heap

theorem Sets.moment (sets : Sets p n s w a (some (.error e)) t x b) : ∃ v, SetIn e v x := by
  generalize is : some (Except.error e) = o at sets
  induction sets with
  | refl => contradiction
  | runs _ leads _ ih =>
    obtain ⟨v, set, later⟩ := ih is
    exact ⟨v, set, later.trans leads.later⟩
  | receives _ _ put ih =>
    obtain ⟨v, set, later⟩ := ih is
    exact ⟨v, set, (SharedCall.replaceReceiverSwaps (laterSwaps _) later _).result put⟩
  | replaces _ _ put ih =>
    obtain ⟨v, set, later⟩ := ih is
    exact ⟨v, set, (SharedCall.replaceArgumentSwaps (laterSwaps _) later _ _).result put⟩
  | answers => cases is
  | fails _ set =>
    cases is
    exact ⟨_, ⟨_, _, _, set⟩, .refl _⟩

variable {q r z : Point σ} {st : Standing} {turns earlier rest : List (Turn σ)} {invoke : Invoker σ}
  {code : Nat → Invoker σ → CallbackCode σ}

theorem Turn.onwardWorld (t : Turn σ) : t.onward.world = t.left.world := by
  unfold onward
  split <;> rfl

theorem Turn.Takes.later {t : Turn σ} (takes : t.Takes p code invoke) (onward : Carries t.onward z) :
    t.given.world.vm.heap.Later z.world.vm.heap := by
  have left := onward.handled.later
  rw [t.onwardWorld] at left
  exact takes.sets.later.trans left

namespace Path

theorem later (path : Path q turns z) (takes : ∀ t ∈ turns, t.Takes p code invoke) :
    q.world.vm.heap.Later z.world.vm.heap ∧ ∀ t ∈ turns, q.world.vm.heap.Later t.given.world.vm.heap := by
  induction path with
  | start carries => exact ⟨carries.handled.later, by simp⟩
  | @turn turns r t z before given onward ih =>
    obtain ⟨reached, all⟩ := ih fun t mem => takes t (List.mem_append_left _ mem)
    have here := reached.trans given.handled.later
    refine ⟨here.trans ((takes t (by simp)).later onward), fun k mem => ?_⟩
    rcases List.mem_append.mp mem with before | last
    · exact all k before
    · obtain rfl := List.mem_singleton.mp last
      exact here

theorem split (path : Path q (earlier ++ rest) z) : ∃ r, Path q earlier r ∧ Path r rest z := by
  induction rest using List.reverseRecOn generalizing z with
  | nil =>
    rw [List.append_nil] at path
    exact ⟨z, path, .start (.refl z)⟩
  | append_singleton rest t ih =>
    rw [← List.append_assoc] at path
    obtain ⟨v, before, given, onward⟩ := path.last
    obtain ⟨r, first, second⟩ := ih before
    exact ⟨r, first, .turn second given onward⟩

theorem arises (path : Path q turns z) (takes : ∀ t ∈ turns, t.Takes p code invoke)
    (stands : standing st turns = .error e) :
    (∃ t ∈ turns, t.establishes = some (.error e) ∧ ∃ v, SetIn e v t.left.world ∧
      v.vm.heap.Later z.world.vm.heap) ∨ st = .error e := by
  -- From the last turn back: what it establishes stands, and else what stood before it.
  induction path with
  | start => exact Or.inr stands
  | @turn turns r t z before given onward ih =>
    have takesHere : t.Takes p code invoke := takes t (by simp)
    rw [standingLast] at stands
    cases establishes : t.establishes with
    | some last =>
      rw [establishes] at stands
      cases stands
      have set : t.set = some (.error e) := by
        unfold Turn.establishes at establishes
        split at establishes
        · exact establishes
        · contradiction
      have sets := takesHere.sets
      rw [set] at sets
      obtain ⟨v, moment⟩ := sets.moment
      have left := onward.handled.later
      rw [t.onwardWorld] at left
      exact Or.inl ⟨t, by simp, establishes, v, moment, moment.2.trans left⟩
    | none =>
      rw [establishes] at stands
      refine (ih (fun k mem => takes k (List.mem_append_left _ mem)) stands).imp_left ?_
      rintro ⟨k, mem, set, v, moment, later⟩
      have further := (later.trans given.handled.later).trans (takesHere.later onward)
      exact ⟨k, List.mem_append_left _ mem, set, v, moment, further⟩

end Path

inductive Chronicle.Arises (c : Chronicle σ) (e : CallError) : World σ → Prop
  | set {t : Turn σ} {v : World σ} (turn : t ∈ c.befores ++ c.afters)
    (establishes : t.establishes = some (.error e)) (moment : SetIn e v t.left.world) : Arises c e v
  | call {o : Proceeding σ} (is : c.call = some o) (failed : o.returned = .error e) : Arises c e o.left

variable {g : Guest σ} {i : HookedCall} {hooks left : List Callback} {u : World σ} {c : Chronicle σ}

theorem Chronicle.Tells.verdictArises (tells : c.Tells p g invoke i hooks u left)
    (stands : c.verdict = .error e) : ∃ v, c.Arises e v ∧ v.vm.heap.Later c.resumed.world.vm.heap := by
  have across := tells.across
  unfold verdict at stands
  cases is : c.call with
  | none =>
    rw [is] at across stands
    cases across with
    | skips carries =>
      rcases tells.before.arises tells.befores stands with ⟨t, mem, set, v, moment, later⟩ | impossible
      · exact ⟨v, .set (List.mem_append_left _ mem) set moment, later.trans carries.handled.later⟩
      · contradiction
  | some o =>
    rw [is] at across stands
    cases across with
    | calls given takes onward =>
      have failed : o.returned = .error e := by
        cases returned : o.returned with
        | ok r => simp [Proceeding.standing, returned, Except.map] at stands
        | error d => simpa [Proceeding.standing, returned, Except.map] using stands
      have world : o.onward.world = o.left := by
        unfold Proceeding.onward
        cases o.standing <;> rfl
      exact ⟨o.left, .call is failed, world ▸ onward.handled.later⟩

theorem Chronicle.Tells.arises (tells : c.Tells p g invoke i hooks u left) (is : c.afters = earlier ++ rest)
    (stands : standing c.verdict earlier = .error e) :
    ∃ v, c.Arises e v ∧ v.vm.heap.Later c.finish.world.vm.heap ∧
      ∀ t ∈ rest, v.vm.heap.Later t.given.world.vm.heap := by
  have path := tells.after
  rw [is] at path
  obtain ⟨r, first, second⟩ := path.split
  have takes : ∀ t ∈ earlier, t.Takes p g.after invoke := fun t mem => tells.afters t (by simp [is, mem])
  have others : ∀ t ∈ rest, t.Takes p g.after invoke := fun t mem => tells.afters t (by simp [is, mem])
  obtain ⟨v, arises, here⟩ : ∃ v, c.Arises e v ∧ v.vm.heap.Later r.world.vm.heap := by
    rcases first.arises takes stands with ⟨t, mem, set, v, moment, later⟩ | verdict
    · exact ⟨v, .set (by simp [is, mem]) set moment, later⟩
    · obtain ⟨v, arises, resumed⟩ := tells.verdictArises verdict
      exact ⟨v, arises, resumed.trans (first.later takes).1⟩
  obtain ⟨finish, all⟩ := second.later others
  exact ⟨v, arises, here.trans finish, fun t mem => here.trans (all t mem)⟩

structure Chronicle.Keeps (c : Chronicle σ) (rest : List (Turn σ)) (outcome : Except CallError (Option Ref))
    (z : World σ) (e : CallError) (o : Ref) (v : World σ) : Prop where
  arises : c.Arises e v
  callbacks : ∀ t ∈ rest, t.given.view.failure = some e ∧ v.vm.heap.Outlasts o t.given.world.vm.heap
  outcome : outcome = .error e
  later : v.vm.heap.Later z.vm.heap

theorem Chronicle.Answers.keeps {outcome : Except CallError (Option Ref)} {z : World σ}
    (answers : c.Answers p g invoke i hooks u outcome z) (is : c.afters = earlier ++ rest)
    (stands : standing c.verdict earlier = .error e) (unset : ∀ t ∈ rest, t.establishes = none) (o : Ref) :
    ∃ v, c.Keeps rest outcome z e o v := by
  have still {some_ : List (Turn σ)} (unset : ∀ t ∈ some_, t.establishes = none) :
      standing c.verdict (earlier ++ some_) = .error e := by
    rw [standing, List.foldl_append]
    exact (standingUndecided unset).trans stands
  obtain ⟨v, arises, finish, all⟩ := answers.tells.arises is stands
  refine ⟨v, arises, fun t mem => ⟨?_, (all t mem).outlasts o⟩, ?_, finish.trans answers.finish.later⟩
  · obtain ⟨before, after, rfl⟩ := List.append_of_mem mem
    have shown := (answers.after (earlier ++ before) t after (by simp [is])).1
    rw [still fun k mem => unset k (List.mem_append_left _ mem)] at shown
    exact shown.1
  · have delivers := answers.outcome
    rw [is, still unset] at delivers
    exact delivers

end Chain

namespace Sample

def moved : Ref := ⟨4114, by decide⟩

end Sample

end Detour
