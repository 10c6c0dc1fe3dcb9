import Detour.Vm.State
import Mathlib.Data.List.Forall2

/-! Objects by number. References change with every collection, but an object keeps its place in the
order of the heap, and that number is its identity. A reference denotes the number of the object at it;
handles and array elements go on denoting the same numbers through relocations and allocations. -/
namespace Detour

namespace Ref

theorem ofNatInside {n : Nat} (positive : 0 < n) (fits : n < UInt32.size) :
    ∃ r, ofNat? n = some r ∧ r.toNat = n := by
  have word : n.toUInt32.toNat = n := UInt32.toNat_ofNat_of_lt' fits
  have nonzero : n.toUInt32 ≠ 0 := by
    intro zero
    rw [zero] at word
    have : (0 : UInt32).toNat = 0 := rfl
    omega
  refine ⟨⟨_, nonzero⟩, ?_, word⟩
  rw [ofNat?, if_pos fits, ofWord?, dif_pos nonzero]

theorem moveByToNat {r : Ref} {distance : Nat} (fits : r.toNat + distance < UInt32.size) :
    ∃ moved, r.moveBy? distance = some moved ∧ moved.toNat = r.toNat + distance :=
  ofNatInside (Nat.add_pos_left r.toNatPos _) fits

end Ref

namespace Heap

def Denotes (h : Heap) : Option Ref → Option Nat → Prop
  | none, none => True
  | some r, some k => r.toNat = h.base + k ∧ k < h.objects.size
  | _, _ => False

variable {h after : Heap} {r : Option Ref} {x : Option Nat} {k : Nat} {o : Obj}

@[simp] theorem denotesNull : h.Denotes none x ↔ x = none := by
  cases x <;> simp [Denotes]

@[simp] theorem denotesNone : h.Denotes r none ↔ r = none := by
  cases r <;> simp [Denotes]

theorem denotesSome {r : Ref} :
    h.Denotes (some r) x ↔ ∃ k, x = some k ∧ r.toNat = h.base + k ∧ k < h.objects.size := by
  cases x <;> simp [Denotes]

theorem denotesSame {a b : Option Ref} (left : h.Denotes a x) (right : h.Denotes b x) : a = b := by
  cases x with
  | none => rw [denotesNone.mp left, denotesNone.mp right]
  | some k =>
    obtain _ | a := a
    · simp at left
    obtain _ | b := b
    · simp at right
    exact congrArg some (Ref.toNatInj (left.1.trans right.1.symm))

theorem denotesOne {y : Option Nat} (left : h.Denotes r x) (right : h.Denotes r y) : x = y := by
  cases r with
  | none => rw [denotesNull.mp left, denotesNull.mp right]
  | some r =>
    obtain ⟨j, rfl, atJ, _⟩ := denotesSome.mp left
    obtain ⟨k, rfl, atK, _⟩ := denotesSome.mp right
    exact congrArg some (by omega)

theorem denotesLive {r : Ref} : h.isLive r = true ↔ ∃ k, h.Denotes (some r) (some k) := by
  rw [liveIff]
  unfold next
  constructor
  · intro live
    exact ⟨r.toNat - h.base, by omega, by omega⟩
  · rintro ⟨k, at_, below⟩
    omega

theorem denotesGet {r : Ref} (denotes : h.Denotes (some r) (some k)) :
    h.get? r = h.objects[k]? := by
  obtain ⟨at_, _⟩ := denotes
  unfold get?
  rw [if_neg (by omega), show r.toNat - h.base = k by omega]

theorem getDenotes {r : Ref} (found : h.get? r = some o) :
    ∃ k, h.Denotes (some r) (some k) ∧ h.objects[k]? = some o := by
  obtain ⟨k, denotes⟩ := denotesLive.mp (show h.isLive r = true by simp [isLive, found])
  exact ⟨k, denotes, (denotesGet denotes).symm.trans found⟩

theorem denotesFound {r : Ref} (denotes : h.Denotes (some r) x) : h.get? r ≠ none := by
  obtain ⟨k, rfl, at_, below⟩ := denotesSome.mp denotes
  rw [denotesGet ⟨at_, below⟩]
  simpa using below

inductive Content
  | plain (o : Obj)
  | array (elements : List (Option Nat))

inductive Shows (h : Heap) (k : Nat) : Content → Prop
  | plain {o : Obj} (at_ : h.objects[k]? = some o) (notArray : ∀ es, o ≠ .array es) : Shows h k (.plain o)
  | array {es : List (Option Ref)} {xs : List (Option Nat)}
    (at_ : h.objects[k]? = some (.array es)) (denote : List.Forall₂ h.Denotes es xs) :
    Shows h k (.array xs)

theorem showsPlain (shows_ : h.Shows k (.plain o)) : h.objects[k]? = some o := by
  cases shows_ with
  | plain at_ => exact at_

theorem relocatedBase (moved : h.relocate? = some after) :
    after.base = h.base + h.objects.size ∧
      after.objects = h.objects.map (Obj.moveBy h.objects.size) ∧
      h.base + h.objects.size + h.objects.size ≤ UInt32.size := by
  unfold relocate? next at moved
  split at moved
  next fits =>
    cases moved
    exact ⟨rfl, rfl, fits⟩
  next => contradiction

theorem relocatedDenotes (moved : h.relocate? = some after) (denotes : h.Denotes r x) :
    after.Denotes (r.bind (Ref.moveBy? h.objects.size)) x := by
  obtain ⟨base, objects, fits⟩ := relocatedBase moved
  cases r with
  | none => simpa using denotes
  | some r =>
    obtain ⟨k, rfl, at_, below⟩ := denotesSome.mp denotes
    obtain ⟨s, found, there⟩ := @Ref.moveByToNat r h.objects.size (by omega)
    rw [Option.bind_some, found]
    exact ⟨by omega, by simpa [objects] using below⟩

theorem relocatedAt (moved : h.relocate? = some after) (at_ : h.objects[k]? = some o) :
    after.objects[k]? = some (o.moveBy h.objects.size) := by
  rw [(relocatedBase moved).2.1, Array.getElem?_map, at_]
  rfl

theorem relocatedShows {c} (moved : h.relocate? = some after) (shows_ : h.Shows k c) :
    after.Shows k c := by
  cases shows_ with
  | @plain o at_ notArray =>
    refine .plain ((relocatedAt moved at_).trans ?_) notArray
    cases o with
    | array es => exact absurd rfl (notArray es)
    | _ => rfl
  | @array es xs at_ denote =>
    exact .array (relocatedAt moved at_) (List.forall₂_map_left_iff.mpr (denote.imp fun _ _ => relocatedDenotes moved))

theorem pushedAt {s : Ref} (pushed : h.push? o = some (s, after)) :
    s.toNat = h.base + h.objects.size ∧ after.base = h.base ∧ after.objects = h.objects.push o := by
  simp only [push?, Option.map_eq_some_iff, Prod.mk.injEq] at pushed
  obtain ⟨_, issued, rfl, rfl⟩ := pushed
  exact ⟨Ref.toNatOfNat issued, rfl, rfl⟩

theorem pushedDenotes {s : Ref} (pushed : h.push? o = some (s, after)) (denotes : h.Denotes r x) :
    after.Denotes r x := by
  obtain ⟨_, base, objects⟩ := pushedAt pushed
  cases r with
  | none => simpa using denotes
  | some r =>
    obtain ⟨k, rfl, at_, below⟩ := denotesSome.mp denotes
    exact ⟨by omega, by rw [objects, Array.size_push]; omega⟩

theorem pushedNew {s : Ref} (pushed : h.push? o = some (s, after)) :
    after.Denotes (some s) (some h.objects.size) := by
  obtain ⟨at_, base, objects⟩ := pushedAt pushed
  exact ⟨by omega, by simp [objects]⟩

theorem pushedOld {s : Ref} {old : Obj} (pushed : h.push? o = some (s, after))
    (at_ : h.objects[k]? = some old) : after.objects[k]? = some old := by
  obtain ⟨below, _⟩ := Array.getElem?_eq_some_iff.mp at_
  rw [(pushedAt pushed).2.2, Array.getElem?_push_lt below, ← at_, Array.getElem?_eq_getElem below]

theorem pushedShows {s : Ref} {c} (pushed : h.push? o = some (s, after)) (shows_ : h.Shows k c) :
    after.Shows k c := by
  cases shows_ with
  | plain at_ notArray => exact .plain (pushedOld pushed at_) notArray
  | array at_ denote => exact .array (pushedOld pushed at_) (denote.imp fun _ _ => pushedDenotes pushed)

theorem setDenotes {s : Ref} (denotes : h.Denotes r x) : (h.set s o).Denotes r x := by
  cases r with
  | none => simpa using denotes
  | some r =>
    obtain ⟨k, rfl, at_, below⟩ := denotesSome.mp denotes
    exact ⟨at_, by simpa [set] using below⟩

theorem setElsewhere {s : Ref} {j : Nat} (denotes : h.Denotes (some s) (some j)) (apart : j ≠ k) :
    (h.set s o).objects[k]? = h.objects[k]? := by
  have index : s.toNat - h.base = j := by
    obtain ⟨at_, _⟩ := denotes
    omega
  simp [set, index, apart]

theorem setThere {s : Ref} (denotes : h.Denotes (some s) (some k)) :
    (h.set s o).objects[k]? = some o := by
  obtain ⟨at_, below⟩ := denotes
  have index : s.toNat - h.base = k := by omega
  simp [set, index, below]

theorem setShows {s : Ref} {j : Nat} {c} (denotes : h.Denotes (some s) (some j)) (apart : j ≠ k)
    (shows_ : h.Shows k c) : (h.set s o).Shows k c := by
  have same := setElsewhere (o := o) denotes apart
  cases shows_ with
  | plain at_ notArray => exact .plain (same.trans at_) notArray
  | array at_ denote => exact .array (same.trans at_) (denote.imp fun _ _ => setDenotes)

end Heap
end Detour
