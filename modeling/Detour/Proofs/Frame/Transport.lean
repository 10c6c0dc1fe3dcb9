import Detour.Proofs.Frame.Places
import Mathlib.Data.List.Forall2
import Mathlib.Tactic.Common

/-! Values written into a frame through the slots of a call are read back as they were, and the rest of
the frame stays as it was. What one store does is said once, for a slot in one piece and for a split one;
since the places of a call lie apart, any number of stores in any order follows by induction. -/
namespace Detour

def Slot.kept (s : Slot) (raw : UInt64) : UInt64 :=
  if s.split || s.tag.isWide then raw else raw.toUInt32.toUInt64

namespace Value

theorem byteThroughWord (v : Int8) : v.toInt32.toUInt32.toUInt8.toInt8 = v := by
  rw [← Int8.toBitVec_inj]
  change (v.toBitVec.signExtend 32).setWidth 8 = v.toBitVec
  rw [← BitVec.signExtend_eq_setWidth_of_le _ (by decide)]
  exact congrArg Int8.toBitVec (Int8.toInt8_toInt32 v)

theorem shortThroughWord (v : Int16) : v.toInt32.toUInt32.toUInt16.toInt16 = v := by
  rw [← Int16.toBitVec_inj]
  change (v.toBitVec.signExtend 32).setWidth 16 = v.toBitVec
  rw [← BitVec.signExtend_eq_setWidth_of_le _ (by decide)]
  exact congrArg Int16.toBitVec (Int16.toInt16_toInt32 v)

theorem ofRawToRaw (v : Value) : ofRaw v.tag v.toRaw = v := by
  cases v with
  | boolean b => cases b <;> rfl
  | byte v => simpa [toRaw, tag, ofRaw] using byteThroughWord v
  | short v => simpa [toRaw, tag, ofRaw] using shortThroughWord v
  | reference r =>
    cases r with
    | none => rfl
    | some r => simp [toRaw, tag, ofRaw, refWord]
  | _ => simp [toRaw, tag, ofRaw]

theorem ofRawLow {t : Tag} (narrow : t.isWide = false) (raw : UInt64) :
    ofRaw t raw.toUInt32.toUInt64 = ofRaw t raw := by
  have low : raw.toUInt32.toUInt64.toUInt32 = raw.toUInt32 := UInt32.toUInt32_toUInt64 _
  cases t with
  | long | double => simp [Tag.isWide] at narrow
  | _ => simp only [ofRaw, low]

theorem ofRawKept {s : Slot} {v : Value} (kind : v.tag = s.tag) :
    ofRaw s.tag (s.kept v.toRaw) = v := by
  unfold Slot.kept
  split
  next => rw [← kind, ofRawToRaw]
  next narrow => rw [ofRawLow (by simp_all), ← kind, ofRawToRaw]

end Value

namespace Frame

variable {abi : Abi} {f : Frame} {s : Slot} {offset : Nat}

theorem loadSame {f g : Frame} {offset width}
    (same : ∀ b, offset ≤ b → b < offset + width → f.bytes[b]? = g.bytes[b]?) :
    f.load offset width = g.load offset width := by
  unfold load
  rw [Bytes.loadOfEqual same]

structure Wrote (f : Frame) (offset width word : Nat) (after : Frame) : Prop where
  stored : f.store offset width word = .ok after
  abi : after.abi = f.abi
  size : after.bytes.size = f.bytes.size
  elsewhere : ∀ b, b < offset ∨ offset + width ≤ b → after.bytes[b]? = f.bytes[b]?
  loads : after.load offset width = .ok (word % (1 <<< (8 * width)))

theorem storeInside {width : Nat} (word : Nat) (fits : offset + width ≤ f.bytes.size) :
    ∃ after, Wrote f offset width word after := by
  obtain ⟨bytes, stored⟩ := @Bytes.storeInside f.bytes offset width word fits
  refine ⟨{ f with bytes }, by simp [store, stored], rfl, Bytes.storeSize stored,
    fun b away => Bytes.storeElsewhere stored away, ?_⟩
  simp [load, Bytes.loadStore stored]

theorem loadInside {width : Nat} (fits : offset + width ≤ f.bytes.size) :
    ∃ n, f.load offset width = .ok n := by
  obtain ⟨n, loaded⟩ := Bytes.loadInside fits
  exact ⟨n, by simp [load, loaded]⟩

theorem storeSlotWhole (whole : s.split = false) (at_ : offsetOf f.abi s.location = .ok offset)
    (raw : UInt64) : f.storeSlot s raw = f.store offset (width s) raw.toNat := by
  simp [storeSlot, at_, Slot.highLocation, whole, bind, Except.bind]

theorem loadSlotWhole (whole : s.split = false) (at_ : offsetOf f.abi s.location = .ok offset) :
    f.loadSlot s = (f.load offset (width s)).map Nat.toUInt64 := by
  simp only [loadSlot, at_, Slot.highLocation, whole, bind, Except.bind]
  cases f.load offset (width s) <;> rfl

theorem offsetHigh (abi : Abi) : offsetOf abi (.stack 0) = .ok abi.stackBase := by
  simp [offsetOf, Abi.stackArgOffset]

theorem storeSlotHalves (split : s.split = true) (at_ : offsetOf f.abi s.location = .ok offset)
    {raw : UInt64} {half : Frame} (low : f.store offset 4 (raw.toNat % UInt32.size) = .ok half)
    (abi : half.abi = f.abi) :
    f.storeSlot s raw = half.store f.abi.stackBase 4 (raw.toNat / UInt32.size) := by
  simp [storeSlot, at_, Slot.highLocation, split, bind, Except.bind, low, abi, offsetHigh]

theorem loadSlotHalves (split : s.split = true) (at_ : offsetOf f.abi s.location = .ok offset)
    {low high : Nat} (lowWord : f.load offset 4 = .ok low)
    (highWord : f.load f.abi.stackBase 4 = .ok high) :
    f.loadSlot s = .ok (low + UInt32.size * high).toUInt64 := by
  simp [loadSlot, at_, Slot.highLocation, split, bind, Except.bind, offsetHigh, lowWord, highWord,
    pure, Except.pure]

theorem joinHalves (raw : UInt64) :
    (raw.toNat % UInt32.size % (1 <<< 32) +
      UInt32.size * (raw.toNat / UInt32.size % (1 <<< 32))).toUInt64 = raw := by
  have bound := raw.toNat_lt
  have size : UInt32.size = 4294967296 := rfl
  have shift : 1 <<< 32 = 4294967296 := rfl
  have joined : raw.toNat % UInt32.size % (1 <<< 32) +
      UInt32.size * (raw.toNat / UInt32.size % (1 <<< 32)) = raw.toNat := by
    rw [size, shift]
    omega
  rw [joined]
  simp

structure Stored (f : Frame) (s : Slot) (raw : UInt64) (after : Frame) : Prop where
  stored : f.storeSlot s raw = .ok after
  abi : after.abi = f.abi
  size : after.bytes.size = f.bytes.size
  elsewhere : ∀ b, ¬ s.Covers f.abi b → after.bytes[b]? = f.bytes[b]?
  loads : after.loadSlot s = .ok (s.kept raw)

theorem Stored.reference {r : Option Ref} {after : Frame} (stored : Stored f s (refWord r).toUInt64 after) :
    after.referenceAt s = .ok r := by
  have low : (s.kept (refWord r).toUInt64).toUInt32 = refWord r := by
    unfold Slot.kept
    split <;> simp
  unfold referenceAt
  rw [stored.loads]
  simp only [bind, Except.bind, pure, Except.pure, low]
  cases r with
  | none => rfl
  | some r => rw [refWord, Ref.ofWordWord]

theorem storeWhole (raw : UInt64) (whole : s.split = false)
    (at_ : offsetOf f.abi s.location = .ok offset) (fits : offset + width s ≤ f.bytes.size) :
    ∃ after, Stored f s raw after := by
  obtain ⟨after, wrote⟩ := storeInside raw.toNat fits
  refine ⟨after, (storeSlotWhole whole at_ raw).trans wrote.stored, wrote.abi, wrote.size, ?_, ?_⟩
  · intro b away
    apply wrote.elsewhere
    by_contra inside
    exact away ⟨offset, at_, by simp [whole]; omega⟩
  · rw [loadSlotWhole whole (by rw [wrote.abi, at_]), wrote.loads]
    have bound := raw.toNat_lt
    cases wide : s.tag.isWide
    · simp [Except.map, Slot.kept, whole, wide, width, ← UInt64.toNat_inj]
      omega
    · simp [Except.map, Slot.kept, wide, width]

theorem storeHalves (raw : UInt64) (split : s.split = true)
    (at_ : offsetOf f.abi s.location = .ok offset) (apart : offset + 4 ≤ f.abi.stackBase)
    (fits : f.abi.stackBase + 4 ≤ f.bytes.size) :
    ∃ after, Stored f s raw after := by
  obtain ⟨half, low⟩ := @storeInside f offset 4 (raw.toNat % UInt32.size) (by omega)
  obtain ⟨after, high⟩ := @storeInside half f.abi.stackBase 4 (raw.toNat / UInt32.size)
    (by rw [low.size]; exact fits)
  refine ⟨after, (storeSlotHalves split at_ low.stored low.abi).trans high.stored,
    high.abi.trans low.abi, high.size.trans low.size, ?_, ?_⟩
  · intro b away
    have outside : (b < offset ∨ offset + 4 ≤ b) ∧
        (b < f.abi.stackBase ∨ f.abi.stackBase + 4 ≤ b) := by
      by_contra inside
      exact away ⟨offset, at_, by simp [split]; omega⟩
    rw [high.elsewhere b outside.2, low.elsewhere b outside.1]
  · have lowWord : after.load offset 4 = half.load offset 4 :=
      loadSame fun b _ below => high.elsewhere b (Or.inl (by omega))
    have abi : after.abi = f.abi := high.abi.trans low.abi
    rw [loadSlotHalves split (by rw [abi, at_]) (lowWord.trans low.loads) (by rw [abi, high.loads]),
      joinHalves]
    simp [Slot.kept, split]

theorem loadSlotSame {f g : Frame} (abi : f.abi = g.abi)
    (same : ∀ b, s.Covers f.abi b → f.bytes[b]? = g.bytes[b]?) : f.loadSlot s = g.loadSlot s := by
  cases at_ : offsetOf f.abi s.location with
  | error e => simp [loadSlot, ← abi, at_, bind, Except.bind]
  | ok offset =>
    cases split : s.split
    · rw [loadSlotWhole split at_, loadSlotWhole split (abi ▸ at_),
        loadSame fun b above below => same b ⟨offset, at_, by simp [split]; omega⟩]
    · have low : f.load offset 4 = g.load offset 4 :=
        loadSame fun b above below => same b ⟨offset, at_, by simp [split]; omega⟩
      have high : f.load f.abi.stackBase 4 = g.load f.abi.stackBase 4 :=
        loadSame fun b above below => same b ⟨offset, at_, by simp [split]; omega⟩
      simp [loadSlot, ← abi, at_, Slot.highLocation, split, bind, Except.bind, offsetHigh, low, high]

theorem placedOffset (regular : abi.Regular) (spaced : abi.Spaced) (placed : s.Placed abi) :
    ∃ offset, offsetOf abi s.location = .ok offset ∧
      (s.split = true → offset + 4 ≤ abi.stackBase) := by
  obtain ⟨c, next, places⟩ := placed
  have order := Abi.returnBelowStack spaced
  cases places with
  | word soft narrow room => exact ⟨_, spaced.core _ room, by simp⟩
  | pair soft wide room => exact ⟨_, spaced.core _ (by omega), by simp⟩
  | split soft wide last =>
    have room : c.core < abi.coreArgs := by omega
    have inside := spaced.coreInside c.core room
    have size := regular.soft soft
    exact ⟨_, spaced.core _ room, fun _ => by omega⟩
  | register hard room => exact ⟨_, spaced.core _ room, by simp⟩
  | float => exact ⟨_, rfl, by simp⟩
  | stack => exact ⟨_, rfl, by simp⟩

theorem widthPos (s : Slot) : 0 < width s := by
  unfold width
  split <;> omega

theorem storeSlotStored (regular : f.abi.Regular) (spaced : f.abi.Spaced) (placed : s.Placed f.abi)
    (inside : ∀ b, s.Covers f.abi b → b < f.bytes.size) (raw : UInt64) :
    ∃ after, Stored f s raw after := by
  obtain ⟨offset, at_, apart⟩ := placedOffset regular spaced placed
  cases split : s.split with
  | false =>
    have positive := widthPos s
    have last := inside (offset + width s - 1) ⟨offset, at_, by simp [split]; omega⟩
    exact storeWhole raw split at_ (by omega)
  | true =>
    have last := inside (f.abi.stackBase + 3) ⟨offset, at_, by simp [split]⟩
    exact storeHalves raw split at_ (apart split) (by omega)

structure StoredAll (f : Frame) (writes : List (Slot × Value)) (after : Frame) : Prop where
  stored : f.storeValues (writes.map (·.1)) (writes.map (·.2)) = .ok after
  abi : after.abi = f.abi
  size : after.bytes.size = f.bytes.size
  elsewhere : ∀ b, (∀ w ∈ writes, ¬ w.1.Covers f.abi b) → after.bytes[b]? = f.bytes[b]?
  reads : ∀ w ∈ writes, after.valueAt w.1 = .ok w.2

theorem storeAll {writes : List (Slot × Value)} (regular : f.abi.Regular) (spaced : f.abi.Spaced)
    (placed : ∀ w ∈ writes, w.1.Placed f.abi)
    (inside : ∀ w ∈ writes, ∀ b, w.1.Covers f.abi b → b < f.bytes.size)
    (apart : writes.Pairwise fun v w => ∀ b, v.1.Covers f.abi b → ¬ w.1.Covers f.abi b)
    (kinds : ∀ w ∈ writes, w.2.tag = w.1.tag) : ∃ after, StoredAll f writes after := by
  induction writes generalizing f with
  | nil => exact ⟨f, rfl, rfl, rfl, fun _ _ => rfl, by simp⟩
  | cons w writes ih =>
    obtain ⟨s, v⟩ := w
    obtain ⟨headApart, restApart⟩ := List.pairwise_cons.mp apart
    obtain ⟨half, head⟩ := storeSlotStored regular spaced (placed (s, v) (by simp))
      (inside (s, v) (by simp)) v.toRaw
    obtain ⟨after, rest⟩ := @ih half (head.abi ▸ regular) (head.abi ▸ spaced)
      (fun w mem => by rw [head.abi]; exact placed w (by simp [mem]))
      (fun w mem => by rw [head.abi, head.size]; exact inside w (by simp [mem]))
      (by rw [head.abi]; exact restApart) (fun w mem => kinds w (by simp [mem]))
    refine ⟨after, ?_, rest.abi.trans head.abi, rest.size.trans head.size, ?_, ?_⟩
    · simp [storeValues, head.stored, rest.stored, bind, Except.bind]
    · intro b away
      rw [rest.elsewhere b fun w mem => by rw [head.abi]; exact away w (by simp [mem])]
      exact head.elsewhere b (away (s, v) (by simp))
    · intro w mem
      rcases List.mem_cons.mp mem with rfl | later
      · have kept : after.loadSlot s = half.loadSlot s :=
          loadSlotSame (rest.abi) fun b covers => rest.elsewhere b fun w mem covered =>
            headApart w mem b (by rwa [rest.abi, head.abi] at covers) (by rwa [head.abi] at covered)
        simp only [valueAt, kept, head.loads, bind, Except.bind, pure, Except.pure]
        rw [Value.ofRawKept (kinds (s, v) (by simp))]
      · exact rest.reads w later

theorem readAll {list : List Slot} {values : List Value} (count : list.length = values.length)
    (reads : ∀ w ∈ list.zip values, f.valueAt w.1 = .ok w.2) :
    list.mapM f.valueAt = .ok values := by
  induction list generalizing values with
  | nil =>
    obtain rfl := List.length_eq_zero_iff.mp count.symm
    rfl
  | cons s list ih =>
    obtain _ | ⟨v, values⟩ := values
    · simp at count
    · have head := reads (s, v) (by simp)
      have rest := ih (by simpa using count) fun w mem => reads w (by simp [mem])
      simp [List.mapM_cons, head, rest, bind, Except.bind, pure, Except.pure]

theorem zipKinds {list : List Slot} {values : List Value}
    (kinds : values.map Value.tag = list.map Slot.tag) : ∀ w ∈ list.zip values, w.2.tag = w.1.tag := by
  induction list generalizing values with
  | nil => simp
  | cons s list ih =>
    cases values with
    | nil => simp
    | cons v values =>
      obtain ⟨head, rest⟩ := List.cons.inj kinds
      intro w mem
      rcases List.mem_cons.mp mem with rfl | later
      · exact head
      · exact ih rest w later

theorem zipApart {R : Slot → Slot → Prop} {list : List Slot} {values : List Value}
    (count : list.length = values.length) (apart : list.Pairwise R) :
    (list.zip values).Pairwise fun v w => R v.1 w.1 := by
  rw [← List.pairwise_map, List.map_fst_zip (by omega)]
  exact apart

theorem placedIndex (spaced : abi.Spaced) (placed : s.Placed abi) :
    (∀ i, s.location = .core i → i < abi.argRegisters.length) ∧
      ∀ i, s.location = .float i → i < abi.floatArgs := by
  obtain ⟨c, next, places⟩ := placed
  have registers := spaced.registers
  cases places with
  | float hard room => simpa using room
  | stack => simp
  | _ => simp; omega

theorem ownWordsSame {after : Frame} (spaced : f.abi.Spaced) (abi : after.abi = f.abi)
    (same : ∀ b, b < Abi.methodWordSize ∨ (f.abi.returnOffset ≤ b ∧ b < f.abi.stackBase) →
      after.bytes[b]? = f.bytes[b]?) :
    after.methodWord = f.methodWord ∧ after.returnAddress = f.returnAddress ∧
      after.callerWord = f.callerWord := by
  have below := spaced.returnInside
  have above := spaced.above
  have word : Abi.methodWordSize = 4 := rfl
  refine ⟨loadSame fun b _ low => same b (Or.inl (by omega)), ?_, ?_⟩
  · unfold returnAddress
    rw [abi]
    exact loadSame fun b low high => same b (Or.inr ⟨low, by omega⟩)
  · unfold callerWord
    rw [abi]
    exact loadSame fun b low high => same b (Or.inr ⟨by split at below <;> omega, by omega⟩)

section Call

variable {arch : Architecture} {shorty : Shorty} {isStatic : Bool}

theorem slotInside (mem : s ∈ slots arch.abi shorty isStatic) (b : Nat) (covers : s.Covers arch.abi b) :
    Abi.methodWordSize ≤ b ∧ b < sizeFor arch.abi (slots arch.abi shorty isStatic) ∧
      (b < arch.abi.returnOffset ∨ arch.abi.stackBase ≤ b) :=
  coversInside arch.regular arch.spaced (slotsPlaced arch.regular s mem) mem covers

theorem slotStored (abi : f.abi = arch.abi)
    (room : sizeFor arch.abi (slots arch.abi shorty isStatic) ≤ f.bytes.size)
    (mem : s ∈ slots arch.abi shorty isStatic) (raw : UInt64) : ∃ after, Stored f s raw after := by
  have placed := slotsPlaced arch.regular s mem
  refine storeSlotStored (abi ▸ arch.regular) (abi ▸ arch.spaced) (abi ▸ placed) (fun b covers => ?_) raw
  rw [abi] at covers
  exact Nat.lt_of_lt_of_le (slotInside mem b covers).2.1 room

theorem slotLoads (abi : f.abi = arch.abi)
    (room : sizeFor arch.abi (slots arch.abi shorty isStatic) ≤ f.bytes.size)
    (mem : s ∈ slots arch.abi shorty isStatic) : ∃ raw, f.loadSlot s = .ok raw := by
  have inside (b : Nat) (covers : s.Covers f.abi b) : b < f.bytes.size :=
    Nat.lt_of_lt_of_le (slotInside mem b (abi ▸ covers)).2.1 room
  obtain ⟨offset, at_, apart⟩ := placedOffset arch.regular arch.spaced (slotsPlaced arch.regular s mem)
  rw [← abi] at at_ apart
  cases split : s.split with
  | false =>
    have positive := widthPos s
    have last := inside (offset + width s - 1) ⟨offset, at_, by simp [split]; omega⟩
    obtain ⟨n, loaded⟩ := @loadInside f offset (width s) (by omega)
    exact ⟨_, by rw [loadSlotWhole split at_, loaded]; rfl⟩
  | true =>
    have last := inside (f.abi.stackBase + 3) ⟨offset, at_, by simp [split]⟩
    have below := apart split
    obtain ⟨low, lowWord⟩ := @loadInside f offset 4 (by omega)
    obtain ⟨high, highWord⟩ := @loadInside f f.abi.stackBase 4 (by omega)
    exact ⟨_, loadSlotHalves split at_ lowWord highWord⟩

theorem slotsStored (abi : f.abi = arch.abi)
    (room : sizeFor arch.abi (slots arch.abi shorty isStatic) ≤ f.bytes.size) {values : List Value}
    (kinds : values.map Value.tag = (slots arch.abi shorty isStatic).map Slot.tag)
    {writes : List (Slot × Value)} (order : writes.Perm ((slots arch.abi shorty isStatic).zip values)) :
    ∃ after, StoredAll f writes after := by
  have count : (slots arch.abi shorty isStatic).length = values.length := by
    simpa only [List.length_map] using congrArg List.length kinds.symm
  have place : ∀ w ∈ writes, w.1 ∈ slots arch.abi shorty isStatic := fun w mem =>
    (List.of_mem_zip (order.mem_iff.mp mem)).1
  have apart := slotsApart arch.regular arch.spaced shorty isStatic
  refine storeAll (abi ▸ arch.regular) (abi ▸ arch.spaced) (fun w mem => ?_) (fun w mem b covers => ?_) ?_
    fun w mem => zipKinds kinds w (order.mem_iff.mp mem)
  · rw [abi]
    exact slotsPlaced arch.regular w.1 (place w mem)
  · rw [abi] at covers
    exact Nat.lt_of_lt_of_le (slotInside (place w mem) b covers).2.1 room
  · rw [abi]
    exact (order.pairwise_iff fun h b covers covered => h b covered covers).mpr (zipApart count apart)

structure Loaded (arch : Architecture) (shorty : Shorty) (isStatic : Bool) (values : List Value)
    (f : Frame) : Prop where
  abi : f.abi = arch.abi
  room : sizeFor arch.abi (slots arch.abi shorty isStatic) ≤ f.bytes.size
  reads : List.Forall₂ (fun s v => f.valueAt s = .ok v ∧ v.tag = s.tag)
    (slots arch.abi shorty isStatic) values

theorem callLoaded {values : List Value} (kinds : values.map Value.tag = argumentTags shorty isStatic) :
    ∃ f, (filled arch.abi (sizeFor arch.abi (slots arch.abi shorty isStatic) + 8) 0).storeValues
        (slots arch.abi shorty isStatic) values = .ok f ∧ Loaded arch shorty isStatic values f := by
  rw [← slotsTags arch.abi] at kinds
  have count : (slots arch.abi shorty isStatic).length = values.length := by
    simpa only [List.length_map] using congrArg List.length kinds.symm
  have room : sizeFor arch.abi (slots arch.abi shorty isStatic) ≤
      (filled arch.abi (sizeFor arch.abi (slots arch.abi shorty isStatic) + 8) 0).bytes.size := by
    simp only [filled, Abi.roundUp, Array.size_replicate]
    omega
  obtain ⟨f, all⟩ := slotsStored rfl room kinds (.refl _)
  refine ⟨f, ?_, all.abi, by rw [all.size]; exact room, List.forall₂_iff_zip.mpr ⟨count, fun mem => ?_⟩⟩
  · have stored := all.stored
    rwa [List.map_fst_zip (Nat.le_of_eq count), List.map_snd_zip (Nat.le_of_eq count.symm)] at stored
  · exact ⟨all.reads _ mem, zipKinds kinds _ mem⟩

theorem referenceRead {r : Option Ref} (read : f.valueAt s = .ok (.reference r)) :
    f.referenceAt s = .ok r := by
  unfold valueAt at read
  unfold referenceAt
  cases raw : f.loadSlot s with
  | error e => simp [raw, bind, Except.bind] at read
  | ok word =>
    simp only [raw, bind, Except.bind, pure, Except.pure, Except.ok.injEq] at read ⊢
    cases kind : s.tag <;> simp [kind, Value.ofRaw] at read
    exact read

end Call

theorem argumentsCarried (arch : Architecture) (shorty : Shorty) (isStatic : Bool)
    (bytes : Array UInt8) (values : List Value) (writes : List (Slot × Value))
    (room : sizeFor arch.abi (slots arch.abi shorty isStatic) ≤ bytes.size)
    (kinds : values.map Value.tag = (slots arch.abi shorty isStatic).map Slot.tag)
    (order : writes.Perm ((slots arch.abi shorty isStatic).zip values)) :
    let abi := arch.abi
    let places := slots abi shorty isStatic
    let before : Frame := ⟨abi, bytes⟩
    ∃ after : Frame,
      before.storeValues (writes.map (·.1)) (writes.map (·.2)) = .ok after ∧
      places.mapM after.valueAt = .ok values ∧
      (∀ b, b < Abi.methodWordSize ∨ sizeFor abi places ≤ b → after.bytes[b]? = bytes[b]?) ∧
      (after.methodWord = before.methodWord ∧ after.returnAddress = before.returnAddress ∧
        after.callerWord = before.callerWord) ∧
      (∀ s ∈ places, (∀ i, s.location = .core i → i < abi.argRegisters.length) ∧
        ∀ i, s.location = .float i → i < abi.floatArgs) ∧
      places.Pairwise fun s t => ∀ b, s.Covers abi b → ¬ t.Covers abi b := by
  intro abi places before
  have count : places.length = values.length := by
    simpa only [List.length_map] using congrArg List.length kinds.symm
  have place : ∀ w ∈ writes, w.1 ∈ places := fun w mem =>
    (List.of_mem_zip (order.mem_iff.mp mem)).1
  obtain ⟨after, all⟩ := @slotsStored before arch shorty isStatic rfl room values kinds writes order
  have outside : ∀ b, (∀ s ∈ places, ¬ s.Covers abi b) → after.bytes[b]? = bytes[b]? :=
    fun b free => all.elsewhere b fun w mem => free w.1 (place w mem)
  refine ⟨after, all.stored, readAll count fun w mem => all.reads w (order.mem_iff.mpr mem), ?_, ?_,
    fun s mem => placedIndex arch.spaced (slotsPlaced arch.regular s mem),
    slotsApart arch.regular arch.spaced shorty isStatic⟩
  · intro b away
    refine outside b fun s mem covers => ?_
    have inside := slotInside mem b covers
    change b < _ ∨ sizeFor arch.abi (slots arch.abi shorty isStatic) ≤ b at away
    omega
  · refine ownWordsSame arch.spaced all.abi fun b own => outside b fun s mem covers => ?_
    have inside := slotInside mem b covers
    change b < _ ∨ (arch.abi.returnOffset ≤ b ∧ b < arch.abi.stackBase) at own
    omega

theorem splitArgumentCarried :
    ∃ after : Frame,
      (Frame.mk Architecture.arm.abi (Array.replicate 68 0)).storeValues
        [⟨.long, .core 2, true⟩, ⟨.int, .core 0, false⟩, ⟨.int, .core 1, false⟩]
        [.long (-3), .int 1, .int 2] = .ok after ∧
      (slots Architecture.arm.abi ⟨.void, [.int, .int, .long]⟩ true).mapM after.valueAt =
        .ok [.int 1, .int 2, .long (-3)] := by
  obtain ⟨after, stored, reads, _⟩ := argumentsCarried .arm ⟨.void, [.int, .int, .long]⟩ true
    (Array.replicate 68 0) [.int 1, .int 2, .long (-3)]
    [(⟨.long, .core 2, true⟩, .long (-3)), (⟨.int, .core 0, false⟩, .int 1),
      (⟨.int, .core 1, false⟩, .int 2)] (by decide) (by decide) (by decide)
  exact ⟨after, stored, reads⟩

end Frame
end Detour
