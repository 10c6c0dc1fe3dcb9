import Detour.Proofs.Vm.Services

/-! References are issued once, and a collection issues as many as there are objects. With room for `n`
objects, none of the next `n` allocations is refused, whatever moves before each of them. -/
namespace Detour

namespace Heap

variable {h after : Heap} {m n : Nat} {o : Obj} {r : Ref}

/-- There are references left for `n` more objects, all objects being moved before each. -/
def Room (h : Heap) (n : Nat) : Prop := 0 < h.next ∧ h.next + n * (h.objects.size + n) ≤ UInt32.size

instance : Decidable (h.Room n) := inferInstanceAs (Decidable (_ ∧ _))

/-- There is a reference left for an object where nothing moves, and then room for `n` more. -/
def RoomNow (h : Heap) (n : Nat) : Prop :=
  0 < h.next ∧ h.next + 1 + n * (h.objects.size + 1 + n) ≤ UInt32.size

theorem Room.fewer (room : h.Room n) (few : m ≤ n) : h.Room m := by
  have less := Nat.mul_le_mul few (Nat.add_le_add_left few h.objects.size)
  exact ⟨room.1, by have := room.2; omega⟩

theorem Room.again (room : h.Room n) (next : after.next = h.next) (size : after.objects.size = h.objects.size) :
    after.Room n := by
  unfold Room
  rw [next, size]
  exact room

theorem roomNext (n : Nat) : (n + 1) * (h.objects.size + (n + 1)) =
    n * (h.objects.size + 1 + n) + (h.objects.size + 1 + n) := by
  rw [Nat.succ_mul, show h.objects.size + (n + 1) = h.objects.size + 1 + n by omega]

theorem Room.now (room : h.Room (n + 1)) : h.RoomNow n := by
  have fits := room.2
  rw [roomNext] at fits
  exact ⟨room.1, by omega⟩

theorem Room.relocates (room : h.Room (n + 1)) : h.next + h.objects.size ≤ UInt32.size := by
  have fits := room.2
  rw [roomNext] at fits
  omega

theorem Room.relocated (room : h.Room (n + 1)) (moved : h.relocate? = some after) : after.RoomNow n := by
  obtain ⟨base, objects, -⟩ := relocatedBase moved
  have next : after.next = h.next + h.objects.size := by simp [Heap.next, base, objects]
  have size : after.objects.size = h.objects.size := by simp [objects]
  have fits := room.2
  rw [roomNext] at fits
  unfold RoomNow
  rw [next, size]
  exact ⟨Nat.add_pos_left room.1 _, by omega⟩

theorem RoomNow.room (now : h.RoomNow n) : h.Room n := by
  have less := Nat.mul_le_mul_left n (show h.objects.size + n ≤ h.objects.size + 1 + n by omega)
  exact ⟨now.1, by have := now.2; omega⟩

theorem RoomNow.pushes (now : h.RoomNow n) (o : Obj) : h.push? o ≠ none := by
  obtain ⟨r, issued, -⟩ := Ref.ofNatInside now.1 (by have := now.2; omega)
  simp [push?, issued]

theorem RoomNow.pushed (now : h.RoomNow n) (pushed : h.push? o = some (r, after)) : after.Room n := by
  obtain ⟨-, base, objects⟩ := pushedAt pushed
  have next : after.next = h.next + 1 := by simp [Heap.next, base, objects, Nat.add_assoc]
  have size : after.objects.size = h.objects.size + 1 := by simp [objects]
  unfold Room
  rw [next, size]
  exact ⟨Nat.succ_pos _, now.2⟩

def Spends (n : Nat) (h after : Heap) : Prop := ∀ m, h.Room (m + n) → after.Room m

theorem Spends.trans {last : Heap} (first : Spends m h after) (second : Spends n after last) :
    Spends (m + n) h last := fun k room => second k (first (k + n) (by rwa [Nat.add_assoc, Nat.add_comm n m]))

theorem Spends.short (spends : Spends m h after) (short : ¬ after.Room n) : ¬ h.Room (m + n) :=
  fun room => short (spends n (by rwa [Nat.add_comm n m]))

theorem Spends.more (spends : Spends m h after) (more : m ≤ n) : Spends n h after :=
  fun k room => spends k (room.fewer (Nat.add_le_add_left more k))

theorem spendsNone (same : after = h) : Spends 0 h after := fun _ room => same ▸ room

end Heap

namespace Vm

variable {T : Fault → Prop} {vm : Vm} {n : Nat}

theorem collectRoom (room : vm.heap.Room (n + 1)) :
    Step.Ends T collectIfMoving vm fun _ x => x.heap.RoomNow n := by
  unfold collectIfMoving
  simp only [Step.endsBind, Step.endsGet]
  cases vm.moving with
  | false => exact room.now
  | true =>
    simp only [if_true, collect, Step.endsBind, Step.endsGet, Step.endsRequire, Step.endsSet]
    refine ⟨fun heap moved => room.relocated moved, fun none_ => ?_⟩
    rw [Heap.relocate?, if_pos room.relocates] at none_
    cases none_

theorem allocateRoom (room : vm.heap.Room (n + 1)) (o : Obj) :
    Step.Ends T (allocate o) vm fun _ x => x.heap.Room n := by
  unfold allocate
  simp only [Step.endsBind, Step.endsGet, Step.endsRequire, Step.endsSet, Step.endsPure]
  refine (collectRoom room).weaken fun _ x now => ⟨fun made pushed => now.pushed pushed, fun none_ => ?_⟩
  exact absurd none_ (now.pushes o)

theorem initClassRoom (room : vm.heap.Room (n + 1)) {c : ClassId}
    (unknown : vm.classes.get? c = none → T .unknownClass) :
    Action.Ends T (initClass c) vm fun _ x => x.heap.Room n := by
  unfold initClass classInfo
  rw [Action.endsLiftedBind]
  simp only [Step.endsBind, Step.endsGet, Step.endsRequire]
  refine ⟨fun info _ => ?_, unknown⟩
  split
  next =>
    refine Action.endsLiftedBind.mpr ((collectRoom room).weaken fun _ x now => ?_)
    simp only [Action.endsBind, Action.endsModify]
    refine ⟨fun _ _ => ?_, by simp⟩
    split
    next =>
      simp only [Action.endsBind, Action.endsThrow]
      exact ⟨by simp, fun _ _ => now.room⟩
    next => exact now.room
  next => exact room.fewer (Nat.le_succ n)

end Vm
end Detour
