import Detour.Proofs.Hook.Sharing
import Detour.Proofs.Vm.Handles

/-! Who answers for the live handles. Code takes some of them over and leaves others behind; the judgment for
that says nothing of the rest, which stays live throughout, so what is proved of a piece of code holds of it
among any other handles. -/
namespace Detour

open World

variable {σ α β ε δ : Type}

def Fault.Sober : Fault → Prop
  | .releasedHandle _ => False
  | _ => True

abbrev Keys := List (Handle × HandleKind)

abbrev locals (hs : List Handle) : Keys := hs.map (·, .localHandle)

abbrev globals (hs : List Handle) : Keys := hs.map (·, .globalHandle)

theorem localsPerm {hs gs : List Handle} (same : hs.Perm gs) : (locals hs).Perm (locals gs) := same.map _

def World.recorded (w : World σ) : List Handle := w.records.flatMap (·.handles)

theorem World.recordedKept {w : World σ} {h : Handle} : h ∈ w.recorded ↔ w.Kept h := by
  simp [recorded, Kept]

structure Ledger (mine : σ → Handle → Prop) (held : Keys) (w : World σ) : Prop where
  orderly : w.vm.handles.Orderly
  owned : ∀ h, mine w.user h → h.id < w.vm.handles.next
  once : (w.vm.handles.keys.map (·.1)).Nodup
  ours : ∀ k ∈ held ++ globals w.recorded, k.2 = .globalHandle → ¬ mine w.user k.1
  accounts : ∃ theirs, (∀ h ∈ theirs, mine w.user h) ∧
    w.vm.handles.keys.Perm (held ++ (globals w.recorded ++ globals theirs))

namespace Ledger

variable {mine : σ → Handle → Prop} {held left : Keys} {w x : World σ} {h : Handle} {kind : HandleKind}

theorem perm (ledger : Ledger mine held w) (same : held.Perm left) : Ledger mine left w := by
  obtain ⟨theirs, own, keys⟩ := ledger.accounts
  refine { ledger with ours := fun k mem => ledger.ours k ?_, accounts := ⟨theirs, own, ?_⟩ }
  · exact (same.append_right _).mem_iff.mpr mem
  · exact keys.trans (same.append_right _)

theorem same (ledger : Ledger mine held w) (keys : x.vm.handles.keys = w.vm.handles.keys)
    (next : x.vm.handles.next = w.vm.handles.next) (user : x.user = w.user)
    (recorded : x.recorded = w.recorded) : Ledger mine held x where
  orderly k mem := next ▸ ledger.orderly k (keys ▸ mem)
  owned h own := next ▸ ledger.owned h (user ▸ own)
  once := keys ▸ ledger.once
  ours k mem global := user ▸ ledger.ours k (recorded ▸ mem) global
  accounts := by
    rw [keys, recorded, user]
    exact ledger.accounts

theorem live (ledger : Ledger mine held w) (mem : (h, kind) ∈ held) : ∃ e, w.vm.handles.find? h = some e := by
  obtain ⟨theirs, _, keys⟩ := ledger.accounts
  exact HandleTable.keysFound (keys.mem_iff.mpr (List.mem_append_left _ mem))

theorem recordedLive (ledger : Ledger mine held w) (kept : w.Kept h) : ∃ e, w.vm.handles.find? h = some e := by
  obtain ⟨theirs, _, keys⟩ := ledger.accounts
  have global : (h, .globalHandle) ∈ globals w.recorded := List.mem_map_of_mem (World.recordedKept.mpr kept)
  exact HandleTable.keysFound (keys.mem_iff.mpr (List.mem_append_right _ (List.mem_append_left _ global)))

theorem ofLocals {hs : List Handle} (ledger : Ledger mine (locals hs) w) :
    (w.vm.handles.ofKind .localHandle).Perm hs := by
  obtain ⟨theirs, _, keys⟩ := ledger.accounts
  rw [HandleTable.ofKindKeys]
  refine ((keys.filter _).map _).trans (.of_eq ?_)
  simp [locals, globals, List.filter_append, List.filter_map, Function.comp_def]

theorem ofGlobals {hs : List Handle} (ledger : Ledger mine (locals hs) w) :
    ∃ theirs, (∀ h ∈ theirs, mine w.user h) ∧ (w.vm.handles.ofKind .globalHandle).Perm (w.recorded ++ theirs) := by
  obtain ⟨theirs, own, keys⟩ := ledger.accounts
  refine ⟨theirs, own, ?_⟩
  rw [HandleTable.ofKindKeys]
  refine ((keys.filter _).map _).trans (.of_eq ?_)
  simp [locals, globals, List.filter_append, List.filter_map, Function.comp_def]

theorem pin (ledger : Ledger mine held w) (kind : HandleKind) (target : Option Ref) :
    Ledger mine ((⟨w.vm.handles.next⟩, kind) :: held) (w.pinned kind target) := by
  obtain ⟨theirs, own, keys⟩ := ledger.accounts
  have grown : (w.pinned kind target).vm.handles.keys = (⟨w.vm.handles.next⟩, kind) :: w.vm.handles.keys := rfl
  constructor
  · intro k mem
    rcases List.mem_cons.mp (grown ▸ mem) with rfl | old
    · exact Nat.lt_succ_self _
    · exact Nat.lt_succ_of_lt (ledger.orderly k old)
  · exact fun h own => Nat.lt_succ_of_lt (ledger.owned h own)
  · rw [grown, List.map_cons, List.nodup_cons]
    refine ⟨fun again => ?_, ledger.once⟩
    obtain ⟨k, mem, same⟩ := List.mem_map.mp again
    exact absurd (ledger.orderly k mem) (by simp [same])
  · intro k mem global own
    rcases List.mem_cons.mp mem with rfl | old
    · exact Nat.lt_irrefl _ (ledger.owned _ own)
    · exact ledger.ours k old global own
  · exact ⟨theirs, own, grown ▸ keys.cons _⟩

theorem unpin (ledger : Ledger mine ((h, kind) :: held) w) : Ledger mine held (w.unpinned h) := by
  obtain ⟨theirs, own, keys⟩ := ledger.accounts
  have fewer : (w.unpinned h).vm.handles.keys = w.vm.handles.keys.filter (·.1 ≠ h) :=
    HandleTable.keysReleased h
  have once := (keys.map Prod.fst).nodup_iff.mp ledger.once
  have apart : ∀ k ∈ held ++ (globals w.recorded ++ globals theirs), decide (k.1 ≠ h) = true := by
    intro k mem
    refine decide_eq_true fun same => ?_
    exact (List.nodup_cons.mp once).1 (List.mem_map.mpr ⟨k, mem, same⟩)
  constructor
  · exact fun k mem => ledger.orderly k (List.mem_of_mem_filter (fewer ▸ mem))
  · exact ledger.owned
  · rw [fewer]
    exact ledger.once.sublist (List.filter_sublist.map _)
  · exact fun k mem => ledger.ours k (List.mem_cons_of_mem _ mem)
  · refine ⟨theirs, own, ?_⟩
    rw [fewer]
    refine (keys.filter _).trans ?_
    rw [List.cons_append, List.filter_cons_of_neg (by simp), List.filter_eq_self.mpr apart]
    exact .refl _

theorem publish {r : InstalledHook} (ledger : Ledger mine (globals r.handles ++ held) w)
    (vm : x.vm.handles = w.vm.handles) (user : x.user = w.user)
    (recorded : x.recorded = w.recorded ++ r.handles) : Ledger mine held x := by
  obtain ⟨theirs, own, keys⟩ := ledger.accounts
  have moved : (globals r.handles ++ held ++ globals w.recorded).Perm
      (held ++ globals (w.recorded ++ r.handles)) := by
    simp only [globals, List.map_append, List.append_assoc]
    exact List.perm_append_comm.trans (by rw [List.append_assoc])
  constructor
  · rw [vm]
    exact ledger.orderly
  · rw [vm, user]
    exact ledger.owned
  · rw [vm]
    exact ledger.once
  · rw [user, recorded]
    exact fun k mem => ledger.ours k (moved.mem_iff.mpr mem)
  · rw [vm, user, recorded]
    refine ⟨theirs, own, keys.trans ?_⟩
    rw [← List.append_assoc, ← List.append_assoc]
    exact moved.append_right _

end Ledger

def whichever (good : α → Keys) (bad : Keys) : Except ε α → Keys
  | .ok a => good a
  | .error _ => bad

/-- Code that takes over the handles `held` and leaves those that its result says, whatever other handles
there are, and that uses no handle but a live one. -/
def Trades (mine : σ → Handle → Prop) (held : Keys) (c : Machine σ α) (left : α → Keys) : Prop :=
  ∀ others w, Ledger mine (held ++ others) w →
    Step.Ends Fault.Sober c w fun a x => Ledger mine (left a ++ others) x

abbrev Keeps (mine : σ → Handle → Prop) (held : Keys) (c : Machine σ α) : Prop :=
  Trades mine held c fun _ => held

theorem World.resolveLive {w : World σ} {h : Handle} (live : ∃ e, w.vm.handles.find? h = some e) :
    Step.Ends Fault.Sober (resolve h) w fun _ x => x = w := by
  obtain ⟨e, found⟩ := live
  have known : w.vm.handles.find? h ≠ none := by simp [found]
  refine Step.endsBind.mpr (vmStepEnds.mpr ((Vm.handleTargetEnds fun gone => (known gone).elim).weaken
    fun target vm looked => ?_))
  obtain ⟨same, _⟩ := looked
  subst same
  simp only [Step.endsBind, Step.endsGet]
  split
  next r c _ _ =>
    refine Step.endsBind.mpr (vmStepEnds.mpr ((Vm.classOfEnds (fun _ => trivial) trivial).weaken
      fun d vm looked => ?_))
    obtain ⟨same, _⟩ := looked
    subst same
    split <;> rfl
  next => rfl

namespace Trades

variable {mine : σ → Handle → Prop} {held : Keys} {c : Machine σ α} {left : α → Keys}

theorem hands {a : α} (same : held.Perm (left a)) : Trades mine held (pure a : Machine σ α) left :=
  fun others _ ledger => ledger.perm (same.append_right others)

theorem done {a : α} (same : left a = held) : Trades mine held (pure a : Machine σ α) left :=
  hands (.of_eq same.symm)

theorem bind {f : α → Machine σ β} {last : β → Keys} (first : Trades mine held c left)
    (rest : ∀ a, Trades mine (left a) (f a) last) : Trades mine held (c >>= f) last :=
  fun others w ledger => Step.endsBind.mpr ((first others w ledger).weaken fun a x => rest a others x)

theorem perm {taken : Keys} {gives : α → Keys} (trades : Trades mine held c left)
    (before : taken.Perm held) (after : ∀ a, (left a).Perm (gives a)) : Trades mine taken c gives :=
  fun others w ledger => (trades others w (ledger.perm (before.append_right others))).weaken
    fun a _ ledger => ledger.perm ((after a).append_right others)

theorem frame (trades : Trades mine held c left) (more : Keys) :
    Trades mine (held ++ more) c fun a => left a ++ more := by
  intro others w ledger
  rw [List.append_assoc] at ledger
  refine (trades (more ++ others) w ledger).weaken fun a _ ledger => ?_
  rwa [List.append_assoc]

theorem idle (keeps : Keeps mine [] c) : Keeps mine held c := fun others w ledger =>
  keeps (held ++ others) w ledger

theorem whether {b : Prop} [Decidable b] {d : Machine σ α} (yes : b → Trades mine held c left)
    (no : ¬ b → Trades mine held d left) : Trades mine held (if b then c else d) left := by
  split
  next holds => exact yes holds
  next fails => exact no fails

theorem still (ends : ∀ w, Step.Ends Fault.Sober c w fun _ x => x.vm.handles.keys = w.vm.handles.keys ∧
      x.vm.handles.next = w.vm.handles.next ∧ x.user = w.user ∧ x.recorded = w.recorded) :
    Keeps mine held c := fun _ w ledger =>
  (ends w).weaken fun _ _ ⟨keys, next, user, recorded⟩ => ledger.same keys next user recorded

theorem looks (ends : ∀ w, Step.Ends Fault.Sober c w fun _ x => x = w) : Keeps mine held c :=
  still fun w => (ends w).weaken fun _ _ same => by simp [same]

theorem vm {c : Step Vm α} (ends : ∀ vm, Step.Ends Fault.Sober c vm fun _ x =>
      x.handles.keys = vm.handles.keys ∧ x.handles.next = vm.handles.next) :
    Keeps mine held (vmStep c) :=
  still fun w => vmStepEnds.mpr ((ends w.vm).weaken fun _ _ ⟨keys, next⟩ => ⟨keys, next, rfl, rfl⟩)

theorem vmLooks {c : Step Vm α} (ends : ∀ vm, Step.Ends Fault.Sober c vm fun _ x => x = vm) :
    Keeps mine held (vmStep c) :=
  vm fun vm => (ends vm).weaken fun _ _ same => by simp [same]

theorem ofExcept {e : Except Fault α} (sober : ∀ f, e = .error f → f.Sober) :
    Keeps mine held (Step.ofExcept e : Machine σ α) :=
  looks fun _ => Step.endsOfExcept.mpr ⟨fun _ _ => rfl, sober⟩

section Acts

variable {c : Act σ ε α} {left : Except ε β → Keys}

theorem thenAct {f : α → Act σ ε β} {mid : Except ε α → Keys} (first : Trades mine held c.run mid)
    (rest : ∀ a, Trades mine (mid (.ok a)) (f a).run left)
    (failed : ∀ e, mid (.error e) = left (.error e)) : Trades mine held (c >>= f).run left := by
  rw [Action.runBind]
  refine first.bind fun r => ?_
  cases r with
  | ok a => exact rest a
  | error e =>
    exact done (failed e).symm

theorem act {f : α → Act σ ε β} (first : Keeps mine held c.run)
    (rest : ∀ a, Trades mine held (f a).run left) (failed : ∀ e, left (.error e) = held) :
    Trades mine held (c >>= f).run left :=
  thenAct first rest fun e => (failed e).symm

theorem lifted {c : Machine σ α} {f : α → Act σ ε β} {mid : α → Keys} (first : Trades mine held c mid)
    (rest : ∀ a, Trades mine (mid a) (f a).run left) : Trades mine held (lift c >>= f).run left := by
  rw [Action.runLift]
  exact first.bind rest

theorem got {f : World σ → Act σ ε β} (rest : ∀ w, Trades mine held (f w).run left) :
    Trades mine held (get >>= f).run left := fun others w ledger => rest w others w ledger

theorem lift {c : Machine σ α} (first : Keeps mine held c) :
    Keeps mine held (Detour.lift c : Act σ ε α).run := fun others w ledger =>
  Action.endsLift.mpr (first others w ledger)

theorem throws (e : ε) (failed : left (.error e) = held) :
    Trades mine held (throw e : Act σ ε β).run left :=
  done failed

theorem mapError {f : ε → δ} (first : Keeps mine held c.run) :
    Keeps mine held (Action.mapError f c).run := fun others w ledger =>
  Action.endsMapError.mpr (first others w ledger)

theorem map {f : α → β} (first : Keeps mine held c.run) : Keeps mine held (f <$> c).run :=
  fun others w ledger => Action.endsMap.mpr (first others w ledger)

theorem actOfExcept (e : Except ε α) : Keeps mine held (Action.ofExcept e : Act σ ε α).run :=
  fun _ _ ledger => Action.endsOfExcept.mpr ledger

end Acts

theorem create (kind : HandleKind) (target : Option Ref) :
    Trades mine [] (vmStep (Vm.createHandle kind target) : Machine σ Handle) fun h => [(h, kind)] := by
  intro others w ledger
  refine vmStepEnds.mpr ((Vm.createHandleEnds fun _ _ _ => trivial).weaken fun h vm ⟨new, same, _⟩ => ?_)
  subst new same
  exact ledger.pin kind target

theorem createLocal (target : Option Ref) :
    Trades mine [] (World.createLocal target : Machine σ Handle) fun h => locals [h] :=
  create .localHandle target

theorem createGlobal (target : Option Ref) :
    Trades mine [] (World.createGlobal target : Machine σ Handle) fun h => globals [h] :=
  create .globalHandle target

theorem releaseHandle (h : Handle) (kind : HandleKind) :
    Trades mine [(h, kind)] (World.releaseHandle h : Machine σ Unit) fun _ => [] := by
  intro others w ledger
  obtain ⟨e, found⟩ := ledger.live (List.mem_cons_self ..)
  refine (releaseHandleEnds fun gone => nomatch found.symm.trans gone).weaken fun _ x same => ?_
  subst same
  exact ledger.unpin

theorem releaseAll (hs : List Handle) (kind : HandleKind) :
    Trades mine (hs.map (·, kind)) (World.releaseAll hs : Machine σ Unit) fun _ => [] := by
  induction hs with
  | nil => exact fun _ _ ledger => ledger
  | cons h hs ih => exact ((releaseHandle h kind).frame (hs.map (·, kind))).bind fun _ => ih

theorem createAll (targets : List (Option Ref)) :
    Trades mine [] (targets.mapM World.createLocal : Machine σ (List Handle)) locals := by
  induction targets with
  | nil => exact done rfl
  | cons target targets ih =>
    rw [List.mapM_cons]
    refine (createLocal target).bind fun h => ?_
    have later := (ih.frame (locals [h])).perm (.refl _) fun _ => List.perm_append_comm
    exact later.bind fun hs => done rfl

theorem resolve {h : Handle} {kind : HandleKind} (mem : (h, kind) ∈ held) :
    Keeps mine held (World.resolve h : Machine σ (Option Ref)) := fun others _ ledger =>
  (resolveLive (ledger.live (List.mem_append_left others mem))).weaken fun _ _ same => same ▸ ledger

theorem resolveAll {hs : List Handle} {kind : HandleKind} (mem : ∀ h ∈ hs, (h, kind) ∈ held) :
    Keeps mine held (World.resolveAll hs : Machine σ (List (Option Ref))) := by
  unfold World.resolveAll
  induction hs with
  | nil => exact done rfl
  | cons h hs ih =>
    rw [List.mapM_cons]
    refine (resolve (mem h (by simp))).bind fun r => ?_
    exact (ih fun g later => mem g (by simp [later])).bind fun rs => done rfl

theorem resolveLocal {hs : List Handle} {h : Handle} (mem : h ∈ hs) :
    Keeps mine (locals hs) (World.resolve h : Machine σ (Option Ref)) :=
  resolve (List.mem_map_of_mem mem)

theorem resolveLocals {hs gs : List Handle} (mem : ∀ h ∈ gs, h ∈ hs) :
    Keeps mine (locals hs) (World.resolveAll gs : Machine σ (List (Option Ref))) :=
  resolveAll fun h later => List.mem_map_of_mem (mem h later)

end Trades
end Detour
