import Detour.Fault
import Detour.Method.Descriptor
import Detour.Method.Layout

/-! The copy of a descriptor taken before it is patched: the descriptor's bytes, the vendor's trailing bytes
included, followed by zeroed slack. Sizes are 64-bit words. No request of `addressSpace` bytes or more can be
met, and a sum that is no such word is a fault. -/
namespace Detour

structure Snapshot where
  descriptor : Descriptor
  size : Nat
  deriving DecidableEq

namespace Snapshot

def addressSpace : Nat := 0x800000000000

def copied (s : Snapshot) : Nat := Layout.compiled.descriptorSize.toNat + s.descriptor.trailing.length

def slack (s : Snapshot) : Nat := s.size - s.copied

def capture (l : Layout) (slack : UInt64) (d : Descriptor) :
    Except Fault (Except RuntimeError Snapshot) := do
  let total ← addSizes l.copySize slack
  if addressSpace ≤ total.toNat then
    return .error (.outOfMemory "hook snapshot")
  else
    let vendor := l.copySize.toNat - Layout.compiled.descriptorSize.toNat
    return .ok ⟨{ d with trailing := d.trailing.take vendor }, total.toNat⟩

variable {l : Layout} {slack : UInt64} {d : Descriptor}

theorem captureFits (fits : l.copySize.toNat + slack.toNat < UInt64.size) :
    capture l slack d = .ok (if addressSpace ≤ l.copySize.toNat + slack.toNat then .error (.outOfMemory "hook snapshot")
      else .ok ⟨{ d with
        trailing := d.trailing.take (l.copySize.toNat - Layout.compiled.descriptorSize.toNat) },
        l.copySize.toNat + slack.toNat⟩) := by
  have sum : (l.copySize + slack).toNat = l.copySize.toNat + slack.toNat := by
    rw [UInt64.toNat_add, Nat.mod_eq_of_lt fits]
  unfold capture addSizes
  rw [if_pos fits]
  simp only [bind, Except.bind, pure, Except.pure, sum]
  split <;> rfl

theorem captureOverflows (overflows : UInt64.size ≤ l.copySize.toNat + slack.toNat) :
    capture l slack d = .error .sizeOverflow := by
  unfold capture addSizes
  rw [if_neg (Nat.not_lt_of_le overflows)]
  rfl

end Snapshot
end Detour
