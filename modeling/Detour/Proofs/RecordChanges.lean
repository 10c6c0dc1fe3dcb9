import Detour.Proofs.Hook.Books
import Detour.Proofs.MovingObjects

/-! What becomes of published records in runs of installs and calls. A record stays as it was published but for
the descriptor in its snapshot, which is patched once where the original is hooked in its turn. -/
namespace Detour

open World

variable {σ : Type} {w v x : World σ} {given : MethodAddress → Prop}

inductive Uses (given : MethodAddress → Prop) (invoke : Invoker σ) : World σ → World σ → Prop
  | rests (w : World σ) : Uses given invoke w w
  | works {w v x : World σ} (before : Uses given invoke w v) (besides : Besides v x) : Uses given invoke w x
  | calls {w v x : World σ} {m receiver args r} (before : Uses given invoke w v)
    (run : (invoke m receiver args).run v = .ok (r, x)) : Uses given invoke w x
  | installs {w v x : World σ} {intrude i m payload r} (before : Uses given invoke w v) (allowed : given m)
    (meanwhile : ∀ a u e y, (intrude a).run u = .ok (e, y) → Uses given invoke u y)
    (run : (install intrude i m payload).run v = .ok (r, x)) : Uses given invoke w x

def Guest.Uses (given : MethodAddress → Prop) (g : Guest σ) : Prop :=
  ∀ invoke, g.Along (Detour.Uses given invoke) invoke

namespace Uses

variable {invoke : Invoker σ}

theorem trans (first : Uses given invoke w v) (second : Uses given invoke v x) : Uses given invoke w x := by
  induction second with
  | rests => exact first
  | works _ besides ih => exact (ih first).works besides
  | calls _ run ih => exact (ih first).calls run
  | installs _ allowed meanwhile run ih _ => exact (ih first).installs allowed meanwhile run

theorem upholds (calls : invoke.Along (Upholds given)) (uses : Uses given invoke w x) : Upholds given w x := by
  -- An install that is suspended lets other code run; `during` is what the hypothesis says of that code.
  induction uses with
  | rests => exact Upholds.lax.aside (.refl _)
  | works _ besides ih => exact Upholds.lax.trans ih (.besides besides)
  | calls _ run ih => exact Upholds.lax.trans ih ((calls _ _ _ _).result run)
  | installs _ allowed _ run ih during =>
    refine Upholds.lax.trans ih ((installUpholds allowed (fun a u => ?_) _ _ _).result run)
    exact (Step.Ends.ran Step.endsAny).weaken fun e y ⟨run, _⟩ => during a u e y run

theorem lax : Lax (Uses given invoke) where
  trans := trans
  aside aside := works (rests _)
    ⟨aside.records, fun _ _ found _ => (aside.descriptor _).trans found, fun _ _ found =>
      .inl ((aside.descriptor _).symm.trans found)⟩
  counted w index := works (rests _)
    ⟨rfl, fun j _ found _ => (countedLive w index j).trans found, fun j _ found =>
      .inl ((countedLive w index j).symm.trans found)⟩

theorem installed {intrude : MethodAddress → Act σ RuntimeError Unit} {m : MethodAddress} (allowed : given m)
    (meanwhile : ∀ a, Along (Uses given invoke) (intrude a).run) (i : Interceptor) (payload : Option Ref) :
    Along (Uses given invoke) (install intrude i m payload).run := fun w =>
  (Step.Ends.ran Step.endsAny).weaken fun _ _ ⟨run, _⟩ =>
    installs (rests w) allowed (fun a u _ _ run => (meanwhile a u).result run) run

theorem transacted {intrude : MethodAddress → Act σ RuntimeError Unit} {m : MethodAddress} (allowed : given m)
    (meanwhile : ∀ a, Along (Uses given invoke) (intrude a).run) (t : Transaction) (payload : Option Ref) :
    Along (Uses given invoke) (t.install intrude m payload) := by
  refine lax.bind (installed allowed meanwhile t.interceptor payload) fun r => ?_
  cases r with
  | ok id => exact lax.pure _
  | error e => exact lax.pure _

end Uses

theorem callUpholds {g : Guest σ} (uses : g.Uses given) (depth : Nat) :
    (call g depth).Along (Upholds given) := by
  refine callAlong Upholds.lax Upholds.errors (fun invoke calls => ?_) depth
  have upholds (w x : World σ) (made : Uses given invoke w x) : Upholds given w x := made.upholds calls
  obtain ⟨body, handler, before, after⟩ := uses invoke
  exact {
    body := fun index receiver args => (body index receiver args).weaken upholds
    handler := fun id i => (handler id i).weaken upholds
    before := fun id s => (before id s).weaken upholds
    after := fun id s => (after id s).weaken upholds }

theorem bookedStart (arch : Architecture) (layout : Layout) (user : σ) :
    Booked given (World.start (Vm.start arch layout) user) := by
  constructor
  · intro m d found
    cases m <;> simp [World.start, Vm.start, descriptor?] at found
  · simp [World.start]

/-- A published record keeps its method, handles, slots and interceptor in every run, and its snapshot's size
and slack. The descriptor in the snapshot is patched once at most, by the one record of the original, and the
original is hooked just when there is that record. So records are written once, and originals stay unhooked,
where no original is given to an install. -/
theorem recordsAmended (given : MethodAddress → Prop) (g : Guest σ) (uses : g.Uses given) (depth : Nat)
    (arch : Architecture) (layout : Layout) (user : σ)
    (before : Uses given (call g depth) (World.start (Vm.start arch layout) user) w)
    (later : Uses given (call g depth) w x) (id : Nat) (r : InstalledHook) (found : w.records[id]? = some r) :
    ∃ d, x.records[id]? = some (r.rewritten d) ∧ x.descriptor? (.copy id) = some d ∧
      (d.isHooked = true ↔ ∃ (k : Nat) (s : InstalledHook), x.records[k]? = some s ∧ s.method = .copy id) ∧
      (d = r.snapshot.descriptor ∨ given (.copy id) ∧ ∃ k s, Overlaid w x id k r s d ∧
        ∀ k' s', x.records[k']? = some s' → s'.method = .copy id → k' = k) ∧
      (¬ given (.copy id) → x.records[id]? = some r ∧ d.isHooked = false) := by
  have calls := callUpholds uses depth
  obtain ⟨booked, _⟩ := before.upholds calls (bookedStart arch layout user)
  obtain ⟨booked', amends⟩ := later.upholds calls booked
  obtain ⟨d, there, how⟩ := amends id r found
  have copy : x.descriptor? (.copy id) = some d := by
    simp [descriptor?, there, InstalledHook.rewritten]
  have recorded {k : Nat} {s : InstalledHook} (at_ : x.records[k]? = some s) (of_ : s.method = .copy id) :
      d.record? = some k := by
    have claims := (booked'.claims k s at_).2
    rwa [of_, recordOf, copy] at claims
  have hooked : d.isHooked = true ↔
      ∃ (k : Nat) (s : InstalledHook), x.records[k]? = some s ∧ s.method = .copy id := by
    constructor
    · intro hooked
      rcases booked'.states _ d copy with plain | ⟨k, s, _, at_, of_⟩
      · exact absurd (plain.entry.symm.trans hooked) Bool.false_ne_true
      · exact ⟨k, s, at_, of_⟩
    · rintro ⟨k, s, at_, of_⟩
      exact (Descriptor.recordIff.mp (recorded at_ of_)).1
  refine ⟨d, there, copy, hooked, how.imp_right ?_, fun kept => ⟨?_, ?_⟩⟩
  · rintro ⟨allowed, k, s, overlaid⟩
    refine ⟨allowed, k, s, overlaid, fun k' s' at_ of_ => ?_⟩
    exact Option.some.inj ((recorded at_ of_).symm.trans (recorded overlaid.found overlaid.method))
  · rw [there, how.resolve_right fun changed => kept changed.1]
    rfl
  · refine Bool.eq_false_iff.mpr fun is => ?_
    obtain ⟨k, s, at_, of_⟩ := hooked.mp is
    exact kept (of_ ▸ (booked'.claims k s at_).1)

namespace Sample

def rehooking : Guest Unit where
  body _ _ _ _ := pure .void
  handler _ _ i := do
    let _ ← lift ((Transaction.begin host).install (fun _ => pure ()) (.copy i.record) none)
    return none
  before _ _ s := pure (.ok (), s)
  after _ _ s := pure (.ok (), s)

theorem rehookingUses : rehooking.Uses fun _ => True := fun _ => {
  body := fun _ _ _ => Uses.lax.pure _
  handler := fun _ _ =>
    Uses.lax.lifted (Uses.transacted trivial (fun _ => Uses.lax.pure _) _ none) fun _ => Uses.lax.pure _
  before := fun _ _ => Uses.lax.pure _
  after := fun _ _ => Uses.lax.pure _ }

def rechosen : Candidate := ⟨.copy 0, ⟨.reference, [.int, .reference]⟩, none⟩
def reseized : Captured := ⟨rechosen, ⟨pick.descriptor, 96⟩, ⟨3⟩⟩
def remirrored : World Unit :=
  { taken with vm.heap := ⟨0x1000, #[.instance .object, .reflected (.live 0), .reflected (.copy 0)]⟩ }.pinned
    .globalHandle (some third)
def retaken : World Unit :=
  remirrored.claimed (.copy 0) (pick.descriptor.patched .compiledEntry 1) (reseized.record host pick.descriptor)

theorem originalInstalls : (install (fun _ => pure ()) host (.copy 0) none).run taken = .ok (.ok 1, retaken) := by
  have checks : (Install.check (.copy 0) none).run taken = .ok (.ok rechosen, taken) := by
    unfold Install.check
    rw [Action.bindRun (pickEligible rfl)]
    rfl
  have captures : (Install.capture (fun _ => pure ()) host rechosen).run taken = .ok (.ok reseized, remirrored) := rfl
  change (Install.check (.copy 0) none >>= _ : Act Unit InstallError Nat).run taken = _
  rw [Action.bindRun checks, Action.bindRun captures]
  rfl

theorem takenUses : Uses (fun _ => True) (call rehooking 1) fresh taken := by
  have defines : Besides fresh ready := by
    refine ⟨rfl, fun index d found _ => ?_, fun index d found => .inr ?_⟩
    · simp [descriptor?, fresh, World.start, Vm.start] at found
    · cases index with
      | zero =>
        cases found
        exact ⟨rfl, _, rfl⟩
      | succ => contradiction
  exact Uses.installs (.works (.rests fresh) defines) trivial (fun _ _ _ _ run => by cases run; exact .rests _) won.run

theorem retakenUses : Uses (fun _ => True) (call rehooking 1) taken retaken :=
  .installs (.rests taken) trivial (fun _ _ _ _ run => by cases run; exact .rests _) originalInstalls

end Sample

theorem sampleRecordAmended :
    Uses (fun _ => True) (call Sample.rehooking 1) Sample.fresh Sample.taken ∧
      Uses (fun _ => True) (call Sample.rehooking 1) Sample.taken Sample.retaken ∧
      Sample.taken.records[0]? = some Sample.record ∧
      ∃ d, Sample.retaken.records[0]? = some (Sample.record.rewritten d) ∧
        (d = Sample.record.snapshot.descriptor ∨
          ∃ k s, Overlaid Sample.taken Sample.retaken 0 k Sample.record s d) := by
  obtain ⟨d, there, _, _, how, _⟩ := recordsAmended (fun _ => True) Sample.rehooking Sample.rehookingUses 1 .arm
    Layout.compiled () Sample.takenUses Sample.retakenUses 0 Sample.record rfl
  refine ⟨Sample.takenUses, Sample.retakenUses, rfl, d, there, how.imp_right ?_⟩
  rintro ⟨_, k, s, overlaid, _⟩
  exact ⟨k, s, overlaid⟩

theorem sampleOriginalHooked :
    Uses (fun _ => True) (call Sample.rehooking 1) Sample.fresh Sample.taken ∧
      Uses (fun _ => True) (call Sample.rehooking 1) Sample.taken Sample.retaken ∧
      Sample.taken.records[0]? = some Sample.record ∧ Sample.retaken.records[0]? ≠ some Sample.record ∧
      Sample.taken.isHooked (.copy 0) = false ∧ Sample.retaken.isHooked (.copy 0) = true :=
  ⟨Sample.takenUses, Sample.retakenUses, rfl, by decide, rfl, rfl⟩

end Detour
