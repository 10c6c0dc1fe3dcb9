import Detour.Proofs.Run
import Detour.Proofs.Vm.Objects
import Mathlib.Logic.Relation

/-! What can happen to a managed runtime while its methods stay as they are. Handles that nobody may
release keep denoting the object they were made for, and arrays that nobody may store into keep their
elements, whatever moves in between. -/
namespace Detour

def ClassTable.Grows (t u : ClassTable) : Prop := ∀ c, t.isInitialized c = true → u.isInitialized c = true

namespace Vm

/-- One step of a runtime. `free` are the handles that may be released, and `still` are the numbers of the
arrays that nobody stores into. -/
inductive Change (free : Handle → Prop) (still : Nat → Prop) (vm : Vm) : Vm → Prop
  | relocated {heap : Heap} (moved : vm.heap.relocate? = some heap) :
    Change free still vm
      { vm with
        heap
        handles := vm.handles.moveBy vm.heap.objects.size
        collections := vm.collections + 1 }
  | allocated {o : Obj} {r : Ref} {heap : Heap} (pushed : vm.heap.push? o = some (r, heap)) :
    Change free still vm { vm with heap }
  | stored {array : Ref} {k index : Nat} {es : List (Option Ref)} {value : Option Ref}
    (denotes : vm.heap.Denotes (some array) (some k)) (at_ : vm.heap.get? array = some (.array es))
    (open_ : ¬ still k) :
    Change free still vm { vm with heap := vm.heap.set array (.array (es.set index value)) }
  | pinned (kind : HandleKind) (target : Option Ref) :
    Change free still vm { vm with handles := (vm.handles.create kind target).2 }
  | released {h : Handle} (loose : free h) :
    Change free still vm { vm with handles := vm.handles.release h }
  | reclassed {classes : ClassTable} (grown : vm.classes.Grows classes) :
    Change free still vm { vm with classes }
  | switched (moving : Bool) : Change free still vm { vm with moving }

abbrev Changes (free : Handle → Prop) (still : Nat → Prop) : Vm → Vm → Prop :=
  Relation.ReflTransGen (Change free still)

def Held (vm : Vm) (h : Handle) (x : Option Nat) : Prop :=
  h.id < vm.handles.next ∧ ∃ e, vm.handles.find? h = some e ∧ vm.heap.Denotes e.target x

variable {free more : Handle → Prop} {still less : Nat → Prop} {vm after : Vm}

theorem Held.one {h : Handle} {x y : Option Nat} (left : vm.Held h x) (right : vm.Held h y) : x = y := by
  obtain ⟨_, e, found, denotes⟩ := left
  obtain ⟨_, e', again, also⟩ := right
  cases found.symm.trans again
  exact Heap.denotesOne denotes also

theorem Change.widen (change : Change free still vm after) (freer : ∀ h, free h → more h)
    (looser : ∀ k, less k → still k) : Change more less vm after := by
  cases change with
  | relocated moved => exact .relocated moved
  | allocated pushed => exact .allocated pushed
  | stored denotes at_ open_ => exact .stored denotes at_ fun held => open_ (looser _ held)
  | pinned kind target => exact .pinned kind target
  | released loose => exact .released (freer _ loose)
  | reclassed grown => exact .reclassed grown
  | switched moving => exact .switched moving

theorem Changes.widen (changes : Changes free still vm after) (freer : ∀ h, free h → more h)
    (looser : ∀ k, less k → still k) : Changes more less vm after := by
  induction changes with
  | refl => exact .refl
  | tail _ change ih => exact ih.tail (change.widen freer looser)

theorem Change.fixed (change : Change free still vm after) :
    after.arch = vm.arch ∧ after.layout = vm.layout ∧ after.methods = vm.methods := by
  cases change <;> exact ⟨rfl, rfl, rfl⟩

theorem Change.issued (change : Change free still vm after) : vm.handles.next ≤ after.handles.next := by
  cases change <;> simp [HandleTable.moveBy, HandleTable.create, HandleTable.release]

theorem Change.grown (change : Change free still vm after) :
    vm.heap.objects.size ≤ after.heap.objects.size := by
  cases change with
  | relocated moved => simp [(Heap.relocatedBase moved).2.1]
  | allocated pushed => simp [(Heap.pushedAt pushed).2.2]
  | stored => simp [Heap.set]
  | _ => exact Nat.le_refl _

theorem Change.initialized (change : Change free still vm after) : vm.classes.Grows after.classes := by
  cases change with
  | reclassed grown => exact grown
  | _ => exact fun _ done => done

theorem Change.entry {h e} (change : Change free still vm after) (kept : ¬ free h)
    (issued : h.id < vm.handles.next) (found : vm.handles.find? h = some e) :
    ∃ f, after.handles.find? h = some f ∧ f.kind = e.kind ∧
      ∀ x, vm.heap.Denotes e.target x → after.heap.Denotes f.target x := by
  cases change with
  | relocated moved =>
    refine ⟨{ e with target := e.target.bind (Ref.moveBy? vm.heap.objects.size) }, ?_, rfl,
      fun _ => Heap.relocatedDenotes moved⟩
    simp only [HandleTable.find?, HandleTable.moveBy, List.find?_map] at found ⊢
    exact Option.map_eq_some_iff.mpr ⟨e, found, rfl⟩
  | allocated pushed => exact ⟨e, found, rfl, fun _ => Heap.pushedDenotes pushed⟩
  | stored => exact ⟨e, found, rfl, fun _ => Heap.setDenotes⟩
  | pinned kind target =>
    refine ⟨e, ?_, rfl, fun _ => id⟩
    have older : ¬ (⟨vm.handles.next⟩ : Handle) = h := by
      rintro rfl
      exact Nat.lt_irrefl _ issued
    simpa [HandleTable.find?, HandleTable.create, List.find?_cons, older] using found
  | @released g loose =>
    refine ⟨e, ?_, rfl, fun _ => id⟩
    have other : h ≠ g := fun same => kept (same ▸ loose)
    simp only [HandleTable.find?, HandleTable.release, List.find?_filter] at found ⊢
    rw [← found]
    congr 1
    funext e
    by_cases same : e.handle = h <;> simp [same, other]
  | reclassed => exact ⟨e, found, rfl, fun _ => id⟩
  | switched => exact ⟨e, found, rfl, fun _ => id⟩

theorem Change.held {h x} (change : Change free still vm after) (kept : ¬ free h)
    (held : vm.Held h x) : after.Held h x := by
  obtain ⟨issued, e, found, denotes⟩ := held
  obtain ⟨f, there, -, leads⟩ := change.entry kept issued found
  exact ⟨Nat.lt_of_lt_of_le issued change.issued, f, there, leads x denotes⟩

def Lasting (still : Nat → Prop) (k : Nat) : Heap.Content → Prop
  | .plain _ => True
  | .array _ => still k

theorem Change.shows {k c} (change : Change free still vm after) (lasting : Lasting still k c)
    (shows_ : vm.heap.Shows k c) : after.heap.Shows k c := by
  cases change with
  | relocated moved => exact Heap.relocatedShows moved shows_
  | allocated pushed => exact Heap.pushedShows pushed shows_
  | @stored array j index es value denotes at_ open_ =>
    refine Heap.setShows denotes (fun same => ?_) shows_
    subst same
    have array := (Heap.denotesGet denotes).symm.trans at_
    cases shows_ with
    | plain at_ notArray =>
      rw [at_] at array
      exact notArray es (Option.some.inj array)
    | array => exact open_ lasting
  | _ => exact shows_

theorem Changes.fixed (changes : Changes free still vm after) :
    after.arch = vm.arch ∧ after.layout = vm.layout ∧ after.methods = vm.methods := by
  induction changes with
  | refl => exact ⟨rfl, rfl, rfl⟩
  | tail _ change ih =>
    obtain ⟨arch, layout, methods⟩ := change.fixed
    exact ⟨arch.trans ih.1, layout.trans ih.2.1, methods.trans ih.2.2⟩

theorem Changes.issued (changes : Changes free still vm after) :
    vm.handles.next ≤ after.handles.next := by
  induction changes with
  | refl => exact Nat.le_refl _
  | tail _ change ih => exact Nat.le_trans ih change.issued

theorem Changes.grown (changes : Changes free still vm after) :
    vm.heap.objects.size ≤ after.heap.objects.size := by
  induction changes with
  | refl => exact Nat.le_refl _
  | tail _ change ih => exact Nat.le_trans ih change.grown

theorem Changes.initialized (changes : Changes free still vm after) :
    vm.classes.Grows after.classes := by
  induction changes with
  | refl => exact fun _ done => done
  | tail _ change ih => exact fun c done => change.initialized c (ih c done)

theorem Changes.held {h x} (changes : Changes free still vm after) (kept : ¬ free h)
    (held : vm.Held h x) : after.Held h x := by
  induction changes with
  | refl => exact held
  | tail _ change ih => exact change.held kept ih

theorem Changes.shows {k c} (changes : Changes free still vm after) (lasting : Lasting still k c)
    (shows_ : vm.heap.Shows k c) : after.heap.Shows k c := by
  induction changes with
  | refl => exact shows_
  | tail _ change ih => exact change.shows lasting ih

end Vm
end Detour
