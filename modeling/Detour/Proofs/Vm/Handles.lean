import Detour.Proofs.Vm.Services

/-! Which handles are live. Collections and allocations leave the live handles as they are; only making one and
releasing one changes them. -/
namespace Detour

namespace HandleTable

variable {t : HandleTable} {n : Nat} {own : List Handle} {others : List (Handle × HandleKind)}

def keys (t : HandleTable) : List (Handle × HandleKind) := t.live.map fun e => (e.handle, e.kind)

def Orderly (t : HandleTable) : Prop := ∀ k ∈ t.keys, k.1.id < t.next

@[simp] theorem keysMoved (distance : Nat) : (t.moveBy distance).keys = t.keys := by
  simp [keys, moveBy]

@[simp] theorem keysCreated (kind : HandleKind) (target : Option Ref) :
    (t.create kind target).2.keys = (⟨t.next⟩, kind) :: t.keys := rfl

@[simp] theorem keysReleased (h : Handle) : (t.release h).keys = t.keys.filter (·.1 ≠ h) := by
  simp only [keys, release, List.filter_map]
  rfl

theorem keysFound {h : Handle} {kind : HandleKind} (mem : (h, kind) ∈ t.keys) : ∃ e, t.find? h = some e := by
  obtain ⟨e, live, is⟩ := List.mem_map.mp mem
  refine Option.isSome_iff_exists.mp (List.find?_isSome.mpr ⟨e, live, ?_⟩)
  exact decide_eq_true (congrArg Prod.fst is)

theorem ofKindKeys (kind : HandleKind) : t.ofKind kind = (t.keys.filter (·.2 = kind)).map (·.1) := by
  simp only [ofKind, keys, List.filter_map, List.map_map]
  rfl

theorem filterOwn (kind : HandleKind) (fresh : ∀ h ∈ own, n ≤ h.id) (old : ∀ k ∈ others, k.1.id < n) :
    (own.map (·, kind) ++ others).filter (·.1 ∉ own) = others := by
  have gone : (own.map (·, kind)).filter (·.1 ∉ own) = [] := by simp
  have kept : ∀ k ∈ others, decide (k.1 ∉ own) = true := fun k mem =>
    decide_eq_true fun its => Nat.not_le_of_lt (old k mem) (fresh k.1 its)
  rw [List.filter_append, gone, List.nil_append, List.filter_eq_self.mpr kept]

end HandleTable

namespace Vm

variable {free : Handle → Prop} {still : Nat → Prop} {vm after : Vm}

theorem Change.orderly (change : Change free still vm after) (orderly : vm.handles.Orderly) :
    after.handles.Orderly := by
  cases change with
  | relocated =>
    intro k mem
    rw [HandleTable.keysMoved] at mem
    exact orderly k mem
  | pinned =>
    intro k mem
    rw [HandleTable.keysCreated] at mem
    rcases List.mem_cons.mp mem with rfl | old
    · exact Nat.lt_succ_self _
    · exact Nat.lt_succ_of_lt (orderly k old)
  | released =>
    intro k mem
    rw [HandleTable.keysReleased] at mem
    exact orderly k (List.mem_of_mem_filter mem)
  | _ => exact orderly

theorem Changes.orderly (changes : Changes free still vm after) (orderly : vm.handles.Orderly) :
    after.handles.Orderly := by
  induction changes with
  | refl => exact orderly
  | tail _ change ih => exact change.orderly ih

theorem Calm.keys (calm : Calm vm after) (none_ : after.handles.next = vm.handles.next) :
    after.handles.keys = vm.handles.keys := by
  induction calm with
  | refl => rfl
  | @tail u v before change ih =>
    have first := Changes.issued before
    have last := change.issued
    have same := ih (by omega)
    cases change with
    | relocated => exact HandleTable.keysMoved _ |>.trans same
    | pinned =>
      simp only [HandleTable.create] at none_
      omega
    | released never => exact never.elim
    | _ => exact same

end Vm

end Detour
