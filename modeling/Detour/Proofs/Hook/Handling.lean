import Detour.Proofs.Services

/-! Runs that touch nothing but handles. What the layer does around a callback is such a run: it pins and
releases, and leaves objects, methods, records and user code's own state as they are. -/
namespace Detour

open World

variable {σ : Type} {w x y : World σ}

def Handled (w x : World σ) : Prop := x = { w with vm.handles := x.vm.handles }

namespace Handled

theorem refl (w : World σ) : Handled w w := rfl

theorem trans (first : Handled w x) (second : Handled x y) : Handled w y := by
  unfold Handled at first second ⊢
  rw [second, first]

theorem heap (handled : Handled w x) : x.vm.heap = w.vm.heap := by rw [handled]

theorem classes (handled : Handled w x) : x.vm.classes = w.vm.classes := by rw [handled]

theorem methods (handled : Handled w x) : x.vm.methods = w.vm.methods := by rw [handled]

theorem disturbed (handled : Handled w x) : x.disturbed = w.disturbed := by rw [handled]

theorem user (handled : Handled w x) : x.user = w.user := by rw [handled]

end Handled

def Handles {α : Type} (c : Machine σ α) : Prop := ∀ w, Step.Ends (fun _ => True) c w fun _ x => Handled w x

namespace Handles

variable {α β : Type} {c : Machine σ α}

theorem ofLooks (looks : Step.Looks c) : Handles c := fun w =>
  (looks w).weaken fun _ _ same => same ▸ .refl w

theorem pure (a : α) : Handles (Pure.pure a : Machine σ α) := fun w => .refl w

theorem bind {f : α → Machine σ β} (first : Handles c) (rest : ∀ a, Handles (f a)) : Handles (c >>= f) :=
  fun w => Step.endsBind.mpr ((first w).weaken fun a x handled =>
    (rest a x).weaken fun _ _ later => handled.trans later)

theorem createLocal (r : Option Ref) : Handles (World.createLocal r : Machine σ Handle) := fun w =>
  (createLocalEnds fun _ _ _ => trivial).weaken fun _ _ ⟨_, same⟩ => by
    rw [same]
    rfl

theorem releaseHandle (h : Handle) : Handles (World.releaseHandle h : Machine σ Unit) := fun w =>
  (releaseHandleEnds fun _ => trivial).weaken fun _ _ same => by
    rw [same]
    rfl

theorem releaseAll (hs : List Handle) : Handles (World.releaseAll hs : Machine σ Unit) := fun w =>
  Step.endsForM (.refl w) fun h _ x handled => (releaseHandle h x).weaken fun _ _ later => handled.trans later

theorem createAll (rs : List (Option Ref)) : Handles (rs.mapM World.createLocal : Machine σ (List Handle)) := by
  induction rs with
  | nil => exact .pure _
  | cons r rs ih =>
    rw [List.mapM_cons]
    exact (createLocal r).bind fun _ => ih.bind fun _ => .pure _

theorem createView (m : MethodAddress) (receiver : Option Ref) (args : List (Option Ref)) :
    Handles (SharedCall.create m receiver args : Machine σ SharedCall) :=
  (createLocal _).bind fun _ => (createAll _).bind fun _ => (createLocal _).bind fun _ => .pure _

theorem saveOutcome (s : SharedCall) : Handles (s.saveOutcome : Machine σ SharedCall.SavedOutcome) :=
  (ofLooks (looksResolve _)).bind fun _ => (createLocal _).bind fun _ => .pure _

theorem withResult (s : SharedCall) (r : Option Ref) : Handles (s.withResult r : Machine σ SharedCall) :=
  (createLocal _).bind fun _ => (releaseHandle _).bind fun _ => .pure _

theorem clearOutcome (s : SharedCall) : Handles (s.clearOutcome : Machine σ SharedCall) :=
  (withResult s none).bind fun _ => .pure _

theorem settle (s : SharedCall) (outcome : Except CallError (Option Ref)) :
    Handles (s.settle outcome : Machine σ SharedCall) := by
  cases outcome with
  | ok r => exact withResult s r
  | error e => exact .pure _

theorem rollBack (s : SharedCall) (last : SharedCall.SavedOutcome) :
    Handles (s.rollBack last : Machine σ SharedCall) :=
  (releaseHandle s.result).bind fun _ => .pure _

end Handles

end Detour
