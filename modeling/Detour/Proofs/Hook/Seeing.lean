import Detour.Proofs.Hook.Sharing
import Mathlib.Data.List.Nodup

/-! What callbacks are shown. The handles of a shared view denote the objects that were set last, however
often everything moves in between. -/
namespace Detour

open World

variable {σ : Type} {T : Fault → Prop} {p : Rights σ} {m : Nat} {w v x : World σ}

namespace World

variable {h old : Handle} {o y : Option Nat} {r : Option Ref}

theorem swappedHeld (held : w.vm.Held h o) (other : h ≠ old) : (w.swapped old r).vm.Held h o :=
  unpinnedHeld (Vm.Calm.holds (pinnedCalm .localHandle r).vm held) other

theorem swappedNew (denotes : w.vm.heap.Denotes r y) (issued : old.id < w.vm.handles.next) :
    (w.swapped old r).vm.Held ⟨w.vm.handles.next⟩ y := by
  refine unpinnedHeld (pinnedHeld denotes) fun same => ?_
  rw [← same] at issued
  exact Nat.lt_irrefl _ issued

theorem resolveAllEnds {hs : List Handle} {xs : List (Option Nat)}
    (held : List.Forall₂ w.vm.Held hs xs) (faithful : w.lost = none) :
    Step.Ends T (resolveAll hs) w fun rs y => y = w ∧ List.Forall₂ w.vm.heap.Denotes rs xs := by
  unfold resolveAll
  induction held with
  | nil => exact ⟨rfl, .nil⟩
  | cons head _ ih =>
    rw [List.mapM_cons]
    refine Step.endsBind.mpr ((resolveEnds head faithful).weaken fun r y ⟨same, denotes⟩ => ?_)
    subst same
    refine Step.endsBind.mpr (ih.weaken fun rs y ⟨same, rest⟩ => ?_)
    exact ⟨same, .cons denotes rest⟩

theorem createAllEnds {rs : List (Option Ref)} {xs : List (Option Nat)} {heap : Heap}
    (same : w.vm.heap = heap) (denote : List.Forall₂ heap.Denotes rs xs) :
    Step.Ends T (rs.mapM createLocal) w fun hs x => Calm w x ∧ x.vm.heap = heap ∧
      List.Forall₂ x.vm.Held hs xs ∧ hs.Nodup ∧ ∀ h ∈ hs, Fresh w h x := by
  induction denote generalizing w with
  | nil => exact ⟨.refl w, same, .nil, .nil, by simp⟩
  | @cons r y rs xs head _ ih =>
    rw [List.mapM_cons]
    rw [← same] at head
    refine Step.endsBind.mpr ((createHeldEnds head).weaken fun h x ⟨new, is⟩ => ?_)
    subst new is
    have first : Calm w (w.pinned .localHandle r) := pinnedCalm _ _
    have kept : (w.pinned .localHandle r).vm.heap = heap := same
    refine Step.endsBind.mpr ((ih kept).weaken fun hs z ⟨calm, heap, held, distinct, fresh⟩ => ?_)
    refine ⟨first.trans calm, heap, .cons (Vm.Calm.holds calm.vm (pinnedHeld head)) held,
      List.nodup_cons.mpr ⟨fun mem => ?_, distinct⟩, fun h mem => ?_⟩
    · exact Nat.lt_irrefl _ (fresh _ mem).1
    · rcases List.mem_cons.mp mem with rfl | later
      · exact (Fresh.pinned _ _ _).after calm
      · exact (fresh h later).before first

end World

def View.settle (a : View) (y : Option Nat) : Except CallError (Option Ref) → View
  | .ok _ => { a with result := y }
  | .error _ => a

structure SharedCall.Sees (s : SharedCall) (a : View) (w : World σ) : Prop where
  receiver : w.vm.Held s.receiver a.receiver
  args : List.Forall₂ w.vm.Held s.args a.args
  result : w.vm.Held s.result a.result
  distinct : s.handles.Nodup

namespace SharedCall.Sees

variable {s t : SharedCall} {a b : View} {h : Handle} {r : Option Ref} {y : Option Nat}

theorem live (sees : s.Sees a w) : ∀ h ∈ s.handles, ∃ o, w.vm.Held h o := by
  intro h mem
  rcases List.mem_append.mp mem with inner | result
  · rcases List.mem_cons.mp inner with rfl | arg
    · exact ⟨_, sees.receiver⟩
    · obtain ⟨i, there, rfl⟩ := List.mem_iff_getElem.mp arg
      exact ⟨_, (List.forall₂_iff_get.mp sees.args).2 i there (by rwa [← sees.args.length_eq])⟩
  · obtain rfl := List.mem_singleton.mp result
    exact ⟨_, sees.result⟩

theorem apart (sees : s.Sees a w) :
    s.receiver ∉ s.args ∧ s.receiver ≠ s.result ∧ s.args.Nodup ∧ s.result ∉ s.args := by
  have distinct := sees.distinct
  simp only [handles, List.cons_append, List.nodup_cons, List.mem_append, List.mem_cons,
    List.not_mem_nil, or_false, List.nodup_append, not_or] at distinct
  refine ⟨distinct.1.1, distinct.1.2, distinct.2.1, fun mem => ?_⟩
  exact distinct.2.2.2 s.result mem s.result rfl rfl

theorem fresh (sees : s.Sees a w) (new : w.vm.handles.next ≤ h.id) : h ∉ s.handles := by
  intro mem
  obtain ⟨o, held⟩ := sees.live h mem
  exact Nat.not_le_of_lt held.1 new

theorem imp (sees : s.Sees a w) (kept : ∀ h ∈ s.handles, ∀ o, w.vm.Held h o → v.vm.Held h o) :
    s.Sees a v where
  receiver := kept _ (by simp [handles]) _ sees.receiver
  args := List.forall₂_iff_zip.mpr ⟨sees.args.length_eq, fun mem => kept _
    (by simp [handles, (List.of_mem_zip mem).1]) _ (List.forall₂_zip sees.args mem)⟩
  result := kept _ (by simp [handles]) _ sees.result
  distinct := sees.distinct

theorem calm (sees : s.Sees a w) (calm : Calm w v) : s.Sees a v :=
  sees.imp fun _ _ _ held => Vm.Calm.holds calm.vm held

theorem released (sees : s.Sees a w) (other : h ∉ s.handles) : s.Sees a (w.unpinned h) :=
  sees.imp fun _ mem _ held => unpinnedHeld held fun same => other (same ▸ mem)

/-! ## Settings -/

theorem newReceiver (sees : s.Sees a w) (denotes : w.vm.heap.Denotes r y) :
    ({ s with receiver := ⟨w.vm.handles.next⟩ } : SharedCall).Sees { a with receiver := y }
      (w.swapped s.receiver r) := by
  obtain ⟨noArg, noResult, args, outside⟩ := sees.apart
  have new := sees.fresh (h := ⟨w.vm.handles.next⟩) (Nat.le_refl _)
  simp only [handles, List.mem_append, List.mem_cons, List.not_mem_nil, or_false, not_or] at new
  refine ⟨swappedNew denotes sees.receiver.1, ?_, swappedHeld sees.result noResult.symm, ?_⟩
  · exact List.forall₂_iff_zip.mpr ⟨sees.args.length_eq, fun mem =>
      swappedHeld (List.forall₂_zip sees.args mem) fun same => noArg (same ▸ (List.of_mem_zip mem).1)⟩
  · refine List.nodup_append.mpr ⟨List.nodup_cons.mpr ⟨new.1.2, args⟩, by simp, ?_⟩
    rintro h mem g is rfl
    obtain rfl := List.mem_singleton.mp is
    rcases List.mem_cons.mp mem with same | arg
    · exact new.2 same.symm
    · exact outside arg

theorem newResult (sees : s.Sees a w) (denotes : w.vm.heap.Denotes r y) :
    ({ s with result := ⟨w.vm.handles.next⟩ } : SharedCall).Sees { a with result := y }
      (w.swapped s.result r) := by
  obtain ⟨noArg, noResult, args, outside⟩ := sees.apart
  have new := sees.fresh (h := ⟨w.vm.handles.next⟩) (Nat.le_refl _)
  simp only [handles, List.mem_append, List.mem_cons, List.not_mem_nil, or_false, not_or] at new
  refine ⟨swappedHeld sees.receiver noResult, ?_, swappedNew denotes sees.result.1, ?_⟩
  · exact List.forall₂_iff_zip.mpr ⟨sees.args.length_eq, fun mem =>
      swappedHeld (List.forall₂_zip sees.args mem) fun same => outside (same ▸ (List.of_mem_zip mem).1)⟩
  · refine List.nodup_append.mpr ⟨List.nodup_cons.mpr ⟨noArg, args⟩, by simp, ?_⟩
    rintro h mem g is rfl
    obtain rfl := List.mem_singleton.mp is
    rcases List.mem_cons.mp mem with same | arg
    · exact new.1.1 same
    · exact new.1.2 arg

theorem heldSet {hs : List Handle} {xs : List (Option Nat)} {index : Nat} {old new : Handle}
    (held : List.Forall₂ w.vm.Held hs xs) (at_ : hs[index]? = some old) (distinct : hs.Nodup)
    (kept : ∀ h ∈ hs, h ≠ old → ∀ o, w.vm.Held h o → v.vm.Held h o) (put : v.vm.Held new y) :
    List.Forall₂ v.vm.Held (hs.set index new) (xs.set index y) := by
  induction held generalizing index with
  | nil => simp at at_
  | @cons h o hs xs head rest ih =>
    obtain ⟨apart, distinct⟩ := List.nodup_cons.mp distinct
    cases index with
    | zero =>
      obtain rfl : h = old := by simpa using at_
      refine .cons put (List.forall₂_iff_zip.mpr ⟨rest.length_eq, fun mem => ?_⟩)
      have there := (List.of_mem_zip mem).1
      exact kept _ (by simp [there]) (fun same => apart (same ▸ there)) _ (List.forall₂_zip rest mem)
    | succ index =>
      have at_ : hs[index]? = some old := by simpa using at_
      refine .cons (kept h (by simp) (fun same => apart ?_) o head)
        (ih at_ distinct fun g mem => kept g (by simp [mem]))
      rw [same]
      exact List.mem_of_getElem? at_

theorem newArgument {index : Nat} {old : Handle} (sees : s.Sees a w) (at_ : s.args[index]? = some old)
    (denotes : w.vm.heap.Denotes r y) :
    ({ s with args := s.args.set index ⟨w.vm.handles.next⟩ } : SharedCall).Sees
      { a with args := a.args.set index y } (w.swapped old r) := by
  obtain ⟨noArg, noResult, args, outside⟩ := sees.apart
  have there := List.mem_of_getElem? at_
  have new := sees.fresh (h := ⟨w.vm.handles.next⟩) (Nat.le_refl _)
  simp only [handles, List.mem_append, List.mem_cons, List.not_mem_nil, or_false, not_or] at new
  obtain ⟨o, held⟩ := sees.live old (by simp [handles, there])
  refine ⟨swappedHeld sees.receiver fun same => noArg (same ▸ there), ?_,
    swappedHeld sees.result fun same => outside (same ▸ there), ?_⟩
  · exact heldSet sees.args at_ args (fun _ _ other _ held => swappedHeld held other)
      (swappedNew denotes held.1)
  · have set {g : Handle} (mem : g ∈ s.args.set index ⟨w.vm.handles.next⟩) :
        g ∈ s.args ∨ g = ⟨w.vm.handles.next⟩ := List.mem_or_eq_of_mem_set mem
    refine List.nodup_append.mpr ⟨List.nodup_cons.mpr ⟨fun mem => ?_, List.Nodup.set args new.1.2⟩, by simp, ?_⟩
    · exact (set mem).elim noArg fun same => new.1.1 same.symm
    · rintro h mem g is rfl
      obtain rfl := List.mem_singleton.mp is
      rcases List.mem_cons.mp mem with same | arg
      · exact noResult same.symm
      · exact (set arg).elim outside fun same => new.2 same.symm

end SharedCall.Sees

namespace SharedCall.Sees

variable {s t : SharedCall} {a b : View} {h : Handle} {r : Option Ref} {o y : Option Nat}

theorem staleNot (denotes : w.vm.heap.Denotes r y) :
    ∀ ref, r = some ref → w.vm.heap.get? ref = none → T (.staleReference ref) :=
  fun _ is gone => absurd gone (Heap.denotesFound (is ▸ denotes))

theorem releasedNot (held : w.vm.Held h o) :
    (w.pinned .localHandle r).vm.handles.find? h = none → T (.releasedHandle h.id) := by
  intro gone
  obtain ⟨_, e, found, _⟩ := Vm.Calm.holds (pinnedCalm .localHandle r).vm held
  exact nomatch found.symm.trans gone

theorem replaceReceiver (sees : s.Sees a w) (denotes : w.vm.heap.Denotes r y) :
    Step.Ends T (s.replaceReceiver r) w fun t x => t.Sees { a with receiver := y } x := by
  refine (replaceReceiverEnds (staleNot denotes) (releasedNot sees.receiver)).weaken fun t x ⟨is, same⟩ => ?_
  rw [is, same]
  exact sees.newReceiver denotes

theorem replaceArgument (sees : s.Sees a w) (index : Nat) (denotes : w.vm.heap.Denotes r y) :
    Step.Ends T (s.replaceArgument index r) w fun t x => t.Sees { a with args := a.args.set index y } x := by
  cases at_ : s.args[index]? with
  | none =>
    have past : a.args.length ≤ index := by
      rw [← sees.args.length_eq]
      exact List.getElem?_eq_none_iff.mp at_
    rw [replaceArgumentPast at_, List.set_eq_of_length_le past]
    exact sees
  | some old =>
    obtain ⟨o, held⟩ := sees.live old (by simp [handles, List.mem_of_getElem? at_])
    refine (replaceArgumentEnds at_ (staleNot denotes) (releasedNot held)).weaken fun t x ends => ?_
    rw [ends.1, ends.2]
    exact sees.newArgument at_ denotes

theorem withResult (sees : s.Sees a w) (denotes : w.vm.heap.Denotes r y) :
    Step.Ends T (s.withResult r) w fun t x => t.Sees { a with result := y } x ∧
      t = { s with result := t.result } ∧ x.vm.heap = w.vm.heap := by
  refine (withResultEnds (staleNot denotes) (releasedNot sees.result)).weaken fun t x ⟨is, same⟩ => ?_
  rw [is, same]
  exact ⟨sees.newResult denotes, rfl, rfl⟩

theorem mark (sees : s.Sees a w) (failure : Option CallError) (settled : Bool) :
    ({ s with failure, settled } : SharedCall).Sees a w :=
  ⟨sees.receiver, sees.args, sees.result, sees.distinct⟩

theorem answerWith (sees : s.Sees a w) (denotes : w.vm.heap.Denotes r y) :
    Step.Ends T (s.answerWith r) w fun t x => t.Sees { a with result := y } x :=
  Step.endsBind.mpr ((sees.withResult denotes).weaken fun _ _ ⟨sees, _⟩ => sees.mark none true)

theorem failWith (sees : s.Sees a w) (e : CallError) :
    Step.Ends T (s.failWith e) w fun t x => t.Sees { a with result := none } x :=
  Step.endsBind.mpr ((sees.withResult (Heap.denotesNull.mpr rfl)).weaken fun _ _ ⟨sees, _⟩ => sees.mark (some e) true)

theorem clearOutcome (sees : s.Sees a w) :
    Step.Ends T s.clearOutcome w fun t x => t.Sees { a with result := none } x ∧ t.settled = false :=
  Step.endsBind.mpr ((sees.withResult (Heap.denotesNull.mpr rfl)).weaken fun _ _ ⟨sees, _⟩ =>
    ⟨sees.mark none false, rfl⟩)

theorem settle (sees : s.Sees a w) (outcome : Except CallError (Option Ref))
    (denotes : ∀ r, outcome = .ok r → w.vm.heap.Denotes r y) :
    Step.Ends T (s.settle outcome) w fun t x => t.Sees (a.settle y outcome) x := by
  cases outcome with
  | ok r => exact (sees.withResult (denotes r rfl)).weaken fun _ _ ⟨sees, _⟩ => sees
  | error e => exact sees.mark (some e) s.settled

theorem edits (sees : s.Sees a w) (edits : Edits p m s w a t v b) : t.Sees b v := by
  induction edits with
  | refl => exact sees
  | runs _ _ spares ih =>
    exact ih.imp fun h mem o held => (spares h mem).1.held (fun differs => differs rfl) held
  | receives _ denotes set ih => exact (ih.replaceReceiver (T := fun _ => True) denotes).result set
  | replaces _ denotes set ih => exact (ih.replaceArgument (T := fun _ => True) _ denotes).result set
  | answers _ denotes set ih => exact (ih.answerWith (T := fun _ => True) denotes).result set
  | fails _ set ih => exact (ih.failWith (T := fun _ => True) _).result set

/-! ## The first view -/

theorem create {r : Option Ref} {rs : List (Option Ref)} {ys : List (Option Nat)} (m : MethodAddress)
    (receiver : w.vm.heap.Denotes r y) (args : List.Forall₂ w.vm.heap.Denotes rs ys) :
    Step.Ends T (SharedCall.create m r rs) w fun s x => s.Sees ⟨y, ys, none⟩ x ∧ s.settled = false ∧
      s.failure = none ∧ Calm w x ∧ ∀ h ∈ s.handles, Fresh w h x := by
  unfold SharedCall.create
  refine Step.endsBind.mpr ((createHeldEnds receiver).weaken fun h x ⟨new, same⟩ => ?_)
  subst new same
  have first : Calm w (w.pinned .localHandle r) := pinnedCalm _ _
  have made := Fresh.pinned w .localHandle r
  have heap : (w.pinned .localHandle r).vm.heap = w.vm.heap := rfl
  refine Step.endsBind.mpr ((createAllEnds heap args).weaken fun hs x ⟨calm, _, held, distinct, fresh⟩ => ?_)
  refine Step.endsBind.mpr ((createHeldEnds (Heap.denotesNull.mpr rfl)).weaken fun h v ⟨new, same⟩ => ?_)
  subst new same
  have last : Calm x (x.pinned .localHandle none) := pinnedCalm _ _
  have all := (first.trans calm).trans last
  refine ⟨⟨?_, ?_, pinnedHeld (Heap.denotesNull.mpr rfl), ?_⟩, rfl, rfl, all, fun h mem => ?_⟩
  · exact Vm.Calm.holds (calm.trans last).vm (pinnedHeld receiver)
  · exact held.imp fun _ _ held => Vm.Calm.holds last.vm held
  · refine List.nodup_append.mpr ⟨List.nodup_cons.mpr ⟨fun mem => ?_, distinct⟩, by simp, ?_⟩
    · exact Nat.lt_irrefl _ (fresh _ mem).1
    · rintro h mem g is rfl
      obtain rfl := List.mem_singleton.mp is
      rcases List.mem_cons.mp mem with same | arg
      · have below := (made.after calm).2
        have same : (⟨x.vm.handles.next⟩ : Handle) = ⟨w.vm.handles.next⟩ := same
        rw [← same] at below
        exact Nat.lt_irrefl _ below
      · exact Nat.lt_irrefl _ (fresh _ arg).2
  · rcases handlesOf.mp mem with (rfl | arg) | rfl
    · exact made.after (calm.trans last)
    · exact ((fresh h arg).before first).after last
    · exact (Fresh.pinned x .localHandle none).before (first.trans calm)

/-! ## Saved outcomes -/

theorem saveOutcome (sees : s.Sees a w) (faithful : w.lost = none) :
    Step.Ends T s.saveOutcome w fun last x => s.Sees a x ∧ x.vm.Held last.result a.result ∧
      last.failure = s.failure ∧ last.result ∉ s.handles ∧ Fresh w last.result x ∧ Calm w x := by
  refine Step.endsBind.mpr ((resolveEnds sees.result faithful).weaken fun r x ⟨same, denotes⟩ => ?_)
  subst same
  refine Step.endsBind.mpr ((createHeldEnds denotes).weaken fun h y ⟨new, same⟩ => ?_)
  subst new same
  have calm : Calm x (x.pinned .localHandle r) := pinnedCalm _ _
  exact ⟨sees.calm calm, pinnedHeld denotes, rfl, sees.fresh (Nat.le_refl _), Fresh.pinned _ _ _, calm⟩

theorem rollBackEnds {last : SavedOutcome} (held : w.vm.Held s.result o) :
    Step.Ends T (s.rollBack last) w fun t x =>
      t = { s with result := last.result, failure := last.failure, settled := true } ∧
        x = w.unpinned s.result :=
  Step.endsBind.mpr ((releaseHeldEnds held).weaken fun _ _ same => ⟨rfl, same⟩)

theorem rollBack {last : SavedOutcome} (sees : s.Sees a w) (held : w.vm.Held last.result y)
    (apart : last.result ∉ s.handles) :
    Step.Ends T (s.rollBack last) w fun t x => t.Sees { a with result := y } x := by
  obtain ⟨noArg, noResult, args, outside⟩ := sees.apart
  have other := apart
  simp only [handles, List.mem_append, List.mem_cons, List.not_mem_nil, or_false, not_or] at other
  refine (rollBackEnds sees.result).weaken fun t x ends => ?_
  obtain ⟨rfl, rfl⟩ := ends
  refine ⟨unpinnedHeld sees.receiver noResult, ?_, unpinnedHeld held other.2, ?_⟩
  · exact List.forall₂_iff_zip.mpr ⟨sees.args.length_eq, fun mem => unpinnedHeld
      (List.forall₂_zip sees.args mem) fun same => outside (same ▸ (List.of_mem_zip mem).1)⟩
  · refine List.nodup_append.mpr ⟨List.nodup_cons.mpr ⟨noArg, args⟩, by simp, ?_⟩
    rintro h mem g is rfl
    obtain rfl := List.mem_singleton.mp is
    rcases List.mem_cons.mp mem with same | arg
    · exact other.1.1 same
    · exact other.1.2 arg

end SharedCall.Sees

structure Beside (p : Rights σ) (m : Nat) (h : Handle) (o : Option Nat) (hs : List Handle)
    (w : World σ) : Prop where
  held : w.vm.Held h o
  foreign : ¬ p.mine w.user h
  old : h.id < m
  issued : m ≤ w.vm.handles.next
  apart : h ∉ hs

theorem Beside.edits {s t : SharedCall} {a b : View} {h : Handle} {o : Option Nat}
    (beside : Beside p m h o s.handles w) (edits : Edits p m s w a t v b) : Beside p m h o t.handles v := by
  refine Edits.keeps (fun hs w old r hs' beside mem handles => ?_) (fun hs v x beside leads _ => ?_)
    edits beside
  · refine ⟨swappedHeld beside.held fun same => beside.apart (same ▸ mem), beside.foreign, beside.old,
      Nat.le_trans beside.issued (w.swappedServed old r).vm.issued, fun inside => ?_⟩
    rcases handles h inside with before | rfl
    · exact beside.apart before
    · exact Nat.not_le_of_lt beside.old beside.issued
  · exact ⟨leads.held (.inr ⟨beside.old, beside.foreign⟩) beside.held,
      fun own => beside.foreign (leads.foreign beside.old own), beside.old,
      Nat.le_trans beside.issued leads.issued, beside.apart⟩

structure Apart (p : Rights σ) (hs : List Handle) (w : World σ) : Prop where
  owned : ∀ h, p.mine w.user h → h.id < w.vm.handles.next
  foreign : ∀ h ∈ hs, ¬ p.mine w.user h

namespace Apart

variable {s t : SharedCall} {hs : List Handle} {a b : View} {h : Handle}

theorem served {free : Handle → Prop} {still : Nat → Prop} (apart : Apart p hs w)
    (served : Served free still w x) : Apart p hs x := by
  refine ⟨fun h own => ?_, fun h mem own => ?_⟩
  · exact Nat.lt_of_lt_of_le (apart.owned h (served.user ▸ own)) served.vm.issued
  · exact apart.foreign h mem (served.user ▸ own)

theorem fresh (apart : Apart p [] w) (user : x.user = w.user) (issued : w.vm.handles.next ≤ x.vm.handles.next)
    (all : ∀ h ∈ hs, w.vm.handles.next ≤ h.id) : Apart p hs x := by
  refine ⟨fun h own => ?_, fun h mem own => ?_⟩
  · exact Nat.lt_of_lt_of_le (apart.owned h (user ▸ own)) issued
  · exact Nat.not_le_of_lt (apart.owned h (user ▸ own)) (all h mem)

theorem swaps : SharedCall.Swaps (Apart p) := by
  intro hs w old r hs' apart _ handles
  have after := apart.served (w.swappedServed old r)
  refine ⟨after.owned, fun h mem own => ?_⟩
  rcases handles h mem with before | rfl
  · exact after.foreign h before own
  · exact Nat.lt_irrefl _ (apart.owned _ own)

theorem edits (apart : Apart p s.handles w) (edits : Edits p m s w a t v b) : Apart p t.handles v := by
  refine Edits.keeps swaps (fun hs v x apart leads spares => ?_) edits apart
  exact ⟨leads.owned apart.owned, fun h mem own => apart.foreign h mem ((spares h mem).mine own)⟩

theorem leads (apart : Apart p hs w) (issued : ∀ h ∈ hs, h.id < w.vm.handles.next)
    (leads : Leads p w.vm.handles.next w x) : Apart p hs x :=
  ⟨leads.owned apart.owned, fun h mem own => apart.foreign h mem (leads.foreign (issued h mem) own)⟩

end Apart

/-! ## Accessors -/

structure SharedCall.Gives (s : SharedCall) (a : View) (w : World σ) : Prop where
  receiver : ∃ r, s.receiverRef w = .ok (r, w) ∧ w.vm.heap.Denotes r a.receiver
  args : ∃ rs, s.argRefs w = .ok (rs, w) ∧ List.Forall₂ w.vm.heap.Denotes rs a.args
  argument : ∀ index, ∃ r, s.argument index w = .ok (r, w) ∧ w.vm.heap.Denotes r (a.args[index]?).join
  result : ∃ r, s.resultRef w = .ok (r, w) ∧ w.vm.heap.Denotes r a.result

namespace SharedCall.Sees

variable {s : SharedCall} {a : View}

theorem argumentEnds (sees : s.Sees a w) (faithful : w.lost = none) (index : Nat) :
    Step.Ends T (s.argument index) w fun r y => y = w ∧ w.vm.heap.Denotes r (a.args[index]?).join := by
  unfold argument
  cases at_ : s.args[index]? with
  | none =>
    have past : a.args[index]? = none := by
      rw [List.getElem?_eq_none_iff] at at_ ⊢
      rwa [← sees.args.length_eq]
    exact ⟨rfl, by simp [past]⟩
  | some h =>
    obtain ⟨below, rfl⟩ := List.getElem?_eq_some_iff.mp at_
    have there : index < a.args.length := by rwa [← sees.args.length_eq]
    rw [List.getElem?_eq_getElem there]
    exact resolveEnds ((List.forall₂_iff_get.mp sees.args).2 index below there) faithful

theorem gives (sees : s.Sees a w) (faithful : w.lost = none) : s.Gives a w := by
  have sure {α : Type} {c : Machine σ α} {post : α → Prop}
      (ends : Step.Ends (fun _ => False) c w fun r y => y = w ∧ post r) :
      ∃ r, c w = .ok (r, w) ∧ post r := by
    obtain ⟨r, y, run, rfl, holds⟩ := ends.sure
    exact ⟨r, run, holds⟩
  exact {
    receiver := sure (resolveEnds sees.receiver faithful)
    args := sure (resolveAllEnds sees.args faithful)
    argument := fun index => sure (sees.argumentEnds faithful index)
    result := sure (resolveEnds sees.result faithful) }

end SharedCall.Sees
end Detour
