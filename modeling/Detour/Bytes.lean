/-! Little-endian words in a byte buffer. An access that is not wholly inside the buffer gives `none`. -/
namespace Detour.Bytes

def load? (bytes : Array UInt8) (offset : Nat) : (width : Nat) → Option Nat
  | 0 => some 0
  | width + 1 => do
    let low ← bytes[offset]?
    let high ← load? bytes (offset + 1) width
    some (low.toNat + 256 * high)

def store? (bytes : Array UInt8) (offset : Nat) : (width : Nat) → (word : Nat) → Option (Array UInt8)
  | 0, _ => some bytes
  | width + 1, word =>
    if h : offset < bytes.size then
      store? (bytes.set offset word.toUInt8) (offset + 1) width (word / 256)
    else none

theorem storeSize {bytes offset width word after}
    (h : store? bytes offset width word = some after) : after.size = bytes.size := by
  induction width generalizing bytes offset word with
  | zero => cases h; rfl
  | succ width ih =>
    unfold store? at h
    split at h <;> try contradiction
    simpa using ih h

theorem storeInside {bytes offset width word} (fits : offset + width ≤ bytes.size) :
    ∃ after, store? bytes offset width word = some after := by
  induction width generalizing bytes offset word with
  | zero => exact ⟨bytes, rfl⟩
  | succ width ih =>
    unfold store?
    rw [dif_pos (by omega)]
    exact ih (by simp; omega)

theorem loadInside {bytes : Array UInt8} {offset width} (fits : offset + width ≤ bytes.size) :
    ∃ n, load? bytes offset width = some n := by
  induction width generalizing offset with
  | zero => exact ⟨0, rfl⟩
  | succ width ih =>
    obtain ⟨high, loaded⟩ := @ih (offset + 1) (by omega)
    simp [load?, Array.getElem?_eq_getElem (show offset < bytes.size by omega), loaded]

theorem storeElsewhere {bytes offset width word after i}
    (h : store? bytes offset width word = some after) (away : i < offset ∨ offset + width ≤ i) :
    after[i]? = bytes[i]? := by
  induction width generalizing bytes offset word with
  | zero => cases h; rfl
  | succ width ih =>
    unfold store? at h
    split at h <;> try contradiction
    rw [ih h (by omega), Array.getElem?_set, if_neg (by omega)]

theorem loadOfEqual {before after : Array UInt8} {offset width}
    (same : ∀ i, offset ≤ i → i < offset + width → before[i]? = after[i]?) :
    load? before offset width = load? after offset width := by
  induction width generalizing offset with
  | zero => rfl
  | succ width ih =>
    simp only [load?]
    rw [same offset (by omega) (by omega), ih (fun i lo hi => same i (by omega) (by omega))]

theorem loadStore {bytes offset width word after}
    (h : store? bytes offset width word = some after) :
    load? after offset width = some (word % (1 <<< (8 * width))) := by
  induction width generalizing bytes offset word with
  | zero => simp [load?, Nat.mod_one]
  | succ width ih =>
    unfold store? at h
    split at h <;> try contradiction
    simp only [load?]
    rw [storeElsewhere h (Or.inl (by omega)), Array.getElem?_set, if_pos rfl, ih h]
    have step : 1 <<< (8 * (width + 1)) = 256 * 1 <<< (8 * width) := by
      rw [Nat.mul_add, Nat.add_comm, Nat.shiftLeft_add]
      simp [Nat.shiftLeft_eq]
    simp only [Option.bind_eq_bind, Option.bind_some, Option.some.injEq]
    rw [step, Nat.mod_mul]
    simp

end Detour.Bytes
