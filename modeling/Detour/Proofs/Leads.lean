import Detour.Hook.Install
import Detour.Hook.Trampoline
import Detour.Proofs.Vm.Services

/-! What code that runs in a world may make of it. User code and the interception layer are treated
alike: a run leads from a world to another by steps of the runtime, of user code's own state and of the
hooks, in any order. What no step undoes holds after every run. -/
namespace Detour

open World

variable {σ : Type}

/-- What is whose: the handles that user code holds as its own, the arrays that nobody stores into, and
whether handles resolve faithfully throughout. -/
structure Rights (σ : Type) where
  mine : σ → Handle → Prop
  still : Nat → Prop
  faithful : Prop

def InstalledHook.handles (r : InstalledHook) : List Handle := r.reflected :: r.payload.toList

def World.Kept (w : World σ) (h : Handle) : Prop := ∃ r ∈ w.records, h ∈ r.handles

namespace Rights

def Free (p : Rights σ) (n : Nat) (w : World σ) (h : Handle) : Prop :=
  (n ≤ h.id ∨ p.mine w.user h) ∧ ¬ w.Kept h

def Safe (p : Rights σ) (n : Nat) (w : World σ) (h : Handle) : Prop :=
  w.Kept h ∨ h.id < n ∧ ¬ p.mine w.user h

def owning (mine : σ → Handle → Prop) : Rights σ := ⟨mine, fun _ => False, True⟩

def guarding (p : Rights σ) (array : Option Nat) : Rights σ := { p with still := fun k => array = some k }

end Rights

def Captured.record (k : Captured) (i : Interceptor) (d : Descriptor) : InstalledHook where
  method := k.candidate.method
  snapshot := k.snapshot
  reflected := k.reflected
  payload := k.candidate.payload
  shorty := k.candidate.shorty
  isStatic := d.isStatic
  slots := slots i.arch.abi k.candidate.shorty d.isStatic
  interceptor := i

structure Captured.From (k : Captured) (i : Interceptor) (index : Nat) (d : Descriptor)
    (w : World σ) : Prop where
  method : k.candidate.method = .live index
  layout : i.layout = w.vm.layout
  found : w.descriptor? (.live index) = some d
  unhooked : d.record? = none
  concrete : d.isAbstract = false
  shorty : d.shorty = .ok k.candidate.shorty
  declared : ∃ c, d.declaringClass = some c ∧
    (d.isStatic = true → w.vm.classes.isInitialized c = true)
  copied : Snapshot.capture i.layout i.settings.snapshotSlack d = .ok (.ok k.snapshot)

structure Captured.Wins (k : Captured) (i : Interceptor) (index : Nat) (d patched : Descriptor)
    (w : World σ) : Prop where
  found : w.descriptor? (.live index) = some d
  patch : d.patch? i.settings.patchStyle k.snapshot.descriptor.nativeData w.records.length =
    some patched

def World.claimed (w : World σ) (m : MethodAddress) (patched : Descriptor) (r : InstalledHook) : World σ :=
  (w.withDescriptor m patched).publish r

def World.counted (w : World σ) (index : Nat) : World σ :=
  { w with vm.methods := w.vm.methods.modify index fun info => { info with calls := info.calls + 1 } }

/-- One step of code, short of a claim. -/
inductive Move (p : Rights σ) (n : Nat) (w : World σ) : World σ → Prop
  | runs {vm} (change : Vm.Change (p.Free n w) p.still w.vm vm) : Move p n w { w with vm }
  | counts (index : Nat) : Move p n w (w.counted index)
  | disturbs (disturbed : List (Service × Nat)) : Move p n w { w with disturbed }
  | loses (lost : Option ClassId) (fickle : ¬ p.faithful) : Move p n w { w with lost }
  | fails (e : CallError) : Move p n w { w with raised := w.raised ++ [e], pending := none }
  | owns (user : σ)
    (taken : ∀ h, p.mine user h → p.mine w.user h ∨ n ≤ h.id ∧ h.id < w.vm.handles.next) :
    Move p n w { w with user }
  | registers (chains : List Chain) : Move p n w { w with chains }
  | defines {info c name signature flags}
    (made : Method.define w.vm.classes w.vm.layout (w.vm.methods.length + 1) c name signature flags =
      .ok info) :
    Move p n w { w with vm.methods := w.vm.methods ++ [info] }
  | overwrites {index d} (found : w.descriptor? (.live index) = some d) (unhooked : d.isHooked = false)
    (word : UInt64) : Move p n w (w.withDescriptor (.live index) { d with nativeData := .word word })

inductive Leads (p : Rights σ) (n : Nat) : World σ → World σ → Prop
  | refl (w) : Leads p n w w
  | moves {w v x} (before : Leads p n w v) (move : Move p n v x) : Leads p n w x
  | claims {w u v i k index copied d patched} (before : Leads p n w u)
    (captured : Captured.From k i index copied u) (meanwhile : Leads p n u v)
    (wins : k.Wins i index d patched v)
    (own : ∀ h ∈ (k.record i d).handles, n ≤ h.id ∧ h.id < v.vm.handles.next) :
    Leads p n w (v.claimed (.live index) patched (k.record i d))

theorem Move.widen {p : Rights σ} {n m : Nat} {w x : World σ} (move : Move p m w x) (fewer : n ≤ m) :
    Move p n w x := by
  cases move with
  | runs change =>
    exact .runs (change.widen (fun h free => free.imp_left (.imp_left (Nat.le_trans fewer))) fun _ still => still)
  | counts index => exact .counts index
  | disturbs disturbed => exact .disturbs disturbed
  | loses lost fickle => exact .loses lost fickle
  | fails e => exact .fails e
  | owns user taken =>
    exact .owns user fun h own => (taken h own).imp id fun ⟨new, issued⟩ =>
      ⟨Nat.le_trans fewer new, issued⟩
  | registers chains => exact .registers chains
  | defines made => exact .defines made
  | overwrites found unhooked word => exact .overwrites found unhooked word

namespace Leads

variable {p : Rights σ} {n m : Nat} {w u v : World σ}

theorem trans (first : Leads p n w u) (second : Leads p n u v) : Leads p n w v := by
  induction second with
  | refl => exact first
  | moves _ move ih => exact (ih first).moves move
  | claims _ captured meanwhile wins own ih _ => exact (ih first).claims captured meanwhile wins own

theorem widen (leads : Leads p m w v) (fewer : n ≤ m) : Leads p n w v := by
  induction leads with
  | refl => exact .refl _
  | moves _ move ih => exact ih.moves (move.widen fewer)
  | claims _ captured _ wins own ih meanwhile =>
    exact ih.claims captured meanwhile wins fun h mem => (own h mem).imp_left (Nat.le_trans fewer)

theorem changes {vm : Vm} (leads : Leads p n w v)
    (changes : Vm.Changes (p.Free n v) p.still v.vm vm) : Leads p n w { v with vm } := by
  induction changes with
  | refl => exact leads
  | tail _ change ih => exact ih.moves (.runs change)

end Leads

def Vm.bare (vm : Vm) : Vm := { vm with methods := [] }

theorem Vm.Change.bare {free still} {vm after : Vm} (change : Vm.Change free still vm after) :
    Vm.Change free still vm.bare after.bare := by
  cases change with
  | relocated moved => exact .relocated moved
  | allocated pushed => exact .allocated pushed
  | stored denotes at_ open_ => exact .stored denotes at_ open_
  | pinned kind target => exact .pinned kind target
  | released loose => exact .released loose
  | reclassed grown => exact .reclassed grown
  | switched moving => exact .switched moving

theorem Vm.Changes.bare {free still} {vm after : Vm} (changes : Vm.Changes free still vm after) :
    Vm.Changes free still vm.bare after.bare := by
  induction changes with
  | refl => exact .refl
  | tail _ change ih => exact ih.tail change.bare

theorem World.withDescriptorBare (w : World σ) (m : MethodAddress) (d : Descriptor) :
    (w.withDescriptor m d).vm.bare = w.vm.bare := by
  cases m <;> rfl

theorem World.claimedBare (w : World σ) (m : MethodAddress) (d : Descriptor) (r : InstalledHook) :
    (w.claimed m d r).vm.bare = w.vm.bare :=
  withDescriptorBare w m d

theorem World.claimedKept {w : World σ} {index : Nat} {d : Descriptor} {r : InstalledHook} {h : Handle} :
    (w.claimed (.live index) d r).Kept h ↔ w.Kept h ∨ h ∈ r.handles := by
  simp [Kept, claimed, publish, withDescriptor, or_and_right, exists_or]

namespace Move

variable {p : Rights σ} {n : Nat} {w v : World σ} {h : Handle}

theorem bare (move : Move p n w v) : Vm.Changes (fun _ => True) p.still w.vm.bare v.vm.bare := by
  cases move with
  | runs change => exact .single (change.bare.widen (fun _ _ => trivial) fun _ still => still)
  | overwrites => rw [withDescriptorBare]
  | _ => exact .refl

theorem records (move : Move p n w v) : v.records = w.records := by
  cases move <;> rfl

theorem kept (move : Move p n w v) : v.Kept h ↔ w.Kept h := by
  unfold World.Kept
  rw [move.records]

theorem spares (move : Move p n w v) (safe : p.Safe n w h) :
    Vm.Changes (· ≠ h) p.still w.vm.bare v.vm.bare ∧ p.Safe n v h := by
  have same (user : v.user = w.user) : p.Safe n v h := by
    unfold Rights.Safe
    rwa [move.kept, user]
  cases move with
  | runs change =>
    refine ⟨.single (change.bare.widen (fun g free same => ?_) fun _ still => still), same rfl⟩
    subst same
    rcases safe with kept | ⟨old, foreign⟩
    · exact free.2 kept
    · exact free.1.elim (Nat.not_le_of_lt old) foreign
  | owns user taken =>
    refine ⟨.refl, safe.imp id fun ⟨old, foreign⟩ => ⟨old, fun own => ?_⟩⟩
    exact (taken h own).elim foreign fun ⟨new, _⟩ => Nat.not_le_of_lt old new
  | overwrites =>
    rw [withDescriptorBare]
    exact ⟨.refl, same rfl⟩
  | _ => exact ⟨.refl, same rfl⟩

theorem pending (move : Move p n w v) (clear : w.pending = none) : v.pending = none := by
  cases move with
  | fails => rfl
  | _ => exact clear

theorem lost (move : Move p n w v) (faithful : p.faithful) : v.lost = w.lost := by
  cases move with
  | loses _ fickle => exact (fickle faithful).elim
  | _ => rfl

theorem owned (move : Move p n w v) (issued : ∀ h, p.mine w.user h → h.id < w.vm.handles.next) :
    ∀ h, p.mine v.user h → h.id < v.vm.handles.next := by
  cases move with
  | runs change => exact fun h own => Nat.lt_of_lt_of_le (issued h own) change.issued
  | owns user taken => exact fun h own => (taken h own).elim (issued h) fun ⟨_, below⟩ => below
  | _ => exact issued

end Move

namespace Leads

variable {p : Rights σ} {n : Nat} {w v : World σ} {h : Handle}

theorem bare (leads : Leads p n w v) : Vm.Changes (fun _ => True) p.still w.vm.bare v.vm.bare := by
  induction leads with
  | refl => exact .refl
  | moves _ move ih => exact ih.trans move.bare
  | claims _ _ _ _ _ ih again =>
    rw [claimedBare]
    exact ih.trans again

theorem spares (leads : Leads p n w v) (safe : p.Safe n w h) :
    Vm.Changes (· ≠ h) p.still w.vm.bare v.vm.bare ∧ p.Safe n v h := by
  induction leads with
  | refl => exact ⟨.refl, safe⟩
  | moves _ move ih =>
    obtain ⟨changes, safe⟩ := ih safe
    obtain ⟨more, safe⟩ := move.spares safe
    exact ⟨changes.trans more, safe⟩
  | claims _ _ _ _ _ ih again =>
    obtain ⟨changes, safe⟩ := ih safe
    obtain ⟨more, safe⟩ := again safe
    rw [claimedBare]
    exact ⟨changes.trans more, safe.imp_left fun kept => claimedKept.mpr (.inl kept)⟩

theorem held {x} (leads : Leads p n w v) (safe : p.Safe n w h) (held : w.vm.Held h x) : v.vm.Held h x :=
  (leads.spares safe).1.held (fun differs => differs rfl) held

theorem kept (leads : Leads p n w v) (old : h.id < n) (kept : v.Kept h) : w.Kept h := by
  induction leads with
  | refl => exact kept
  | moves _ move ih => exact ih (move.kept.mp kept)
  | claims _ _ _ _ own ih again =>
    rcases claimedKept.mp kept with before | new
    · exact ih (again before)
    · exact absurd (own h new).1 (Nat.not_le_of_lt old)

theorem foreign (leads : Leads p n w v) (old : h.id < n) (own : p.mine v.user h) : p.mine w.user h := by
  induction leads with
  | refl => exact own
  | moves _ move ih =>
    cases move with
    | owns user taken => exact ih ((taken h own).resolve_right fun ⟨new, _⟩ => Nat.not_le_of_lt old new)
    | _ => exact ih own
  | claims _ _ _ _ _ ih again => exact ih (again own)

theorem shows {k c} (leads : Leads p n w v) (lasting : Vm.Lasting p.still k c)
    (shows_ : w.vm.heap.Shows k c) : v.vm.heap.Shows k c :=
  leads.bare.shows lasting shows_

theorem issued (leads : Leads p n w v) : w.vm.handles.next ≤ v.vm.handles.next :=
  leads.bare.issued

theorem grown (leads : Leads p n w v) : w.vm.heap.objects.size ≤ v.vm.heap.objects.size :=
  leads.bare.grown

theorem arch (leads : Leads p n w v) : v.vm.arch = w.vm.arch := leads.bare.fixed.1

theorem layout (leads : Leads p n w v) : v.vm.layout = w.vm.layout := leads.bare.fixed.2.1

theorem initialized (leads : Leads p n w v) : w.vm.classes.Grows v.vm.classes :=
  leads.bare.initialized

theorem pending (leads : Leads p n w v) (clear : w.pending = none) : v.pending = none := by
  induction leads with
  | refl => exact clear
  | moves _ move ih => exact move.pending (ih clear)
  | claims _ _ _ _ _ ih again => exact again (ih clear)

theorem published {id : Nat} {r : InstalledHook} (leads : Leads p n w v) (found : w.records[id]? = some r) :
    v.records[id]? = some r := by
  induction leads with
  | refl => exact found
  | moves _ move ih =>
    rw [move.records]
    exact ih found
  | @claims _ _ v i k _ _ d _ _ _ _ _ _ ih again =>
    have before := again (ih found)
    obtain ⟨below, _⟩ := List.getElem?_eq_some_iff.mp before
    change (v.records ++ [k.record i d])[id]? = some r
    rw [List.getElem?_append_left below]
    exact before

theorem lost (leads : Leads p n w v) (faithful : p.faithful) : v.lost = w.lost := by
  induction leads with
  | refl => rfl
  | moves _ move ih => exact (move.lost faithful).trans ih
  | claims _ _ _ _ _ ih again => exact again.trans ih

theorem owned (leads : Leads p n w v) (issued : ∀ h, p.mine w.user h → h.id < w.vm.handles.next) :
    ∀ h, p.mine v.user h → h.id < v.vm.handles.next := by
  induction leads with
  | refl => exact issued
  | moves _ move ih => exact move.owned (ih issued)
  | claims _ _ _ _ _ ih again => exact again (ih issued)

theorem keptIssued (leads : Leads p n w v) (before : ∀ h, w.Kept h → h.id < w.vm.handles.next) :
    ∀ h, v.Kept h → h.id < v.vm.handles.next := by
  induction leads with
  | refl => exact before
  | moves _ move ih =>
    intro h kept
    exact Nat.lt_of_lt_of_le (ih before h (move.kept.mp kept)) move.bare.issued
  | claims _ _ _ _ own ih again =>
    intro h kept
    rcases claimedKept.mp kept with old | new
    · exact again (ih before) h old
    · exact (own h new).2

end Leads
end Detour
