import Detour.Bytes
import Detour.Method.Snapshot
import Detour.Vm.Method
import Mathlib.Algebra.Order.Ring.Nat

/-! Descriptors and their snapshots byte by byte. A snapshot is the live descriptor's memory followed by
zeros, and every field stands in it where the layout says. There is none whose size is no 64-bit word: to
ask for one is a fault. -/
namespace Detour

namespace Bytes

def ofWord : (width : Nat) → (word : Nat) → List UInt8
  | 0, _ => []
  | width + 1, word => word.toUInt8 :: ofWord width (word / 256)

@[simp] theorem ofWordLength (width word : Nat) : (ofWord width word).length = width := by
  induction width generalizing word with
  | zero => rfl
  | succ width ih => simp [ofWord, ih]

theorem loadOfWord {width word : Nat} (fits : word < 256 ^ width) (before after : List UInt8) :
    load? (before ++ (ofWord width word ++ after)).toArray before.length width = some word := by
  induction width generalizing word before with
  | zero => simp [load?]; omega
  | succ width ih =>
    have high : word / 256 < 256 ^ width := Nat.div_lt_of_lt_mul (by rwa [Nat.pow_succ'] at fits)
    have rest := ih high (before ++ [word.toUInt8])
    simp only [List.append_assoc, List.length_append, List.length_singleton] at rest
    have first : (before ++ (ofWord (width + 1) word ++ after)).toArray[before.length]? = some word.toUInt8 := by
      simp [ofWord]
    simp only [load?, first]
    rw [show before ++ (ofWord (width + 1) word ++ after)
      = before ++ ([word.toUInt8] ++ (ofWord width (word / 256) ++ after)) from rfl, rest]
    simp only [Option.bind_eq_bind, Option.bind_some, Option.some.injEq]
    simpa using Nat.mod_add_div word 256

end Bytes

structure Member where
  name : String
  width : Nat
  value : Nat

namespace Member

def bytes (ms : List Member) : List UInt8 := ms.flatMap fun m => Bytes.ofWord m.width m.value

def extent (ms : List Member) : Nat := (ms.map width).sum

theorem bytesLength (ms : List Member) : (bytes ms).length = extent ms := by
  simp [bytes, extent, List.length_flatMap]

theorem loadMember {ms : List Member} (fits : ∀ m ∈ ms, m.value < 256 ^ m.width) {i : Nat} {m : Member}
    (found : ms[i]? = some m) (after : List UInt8) :
    Bytes.load? (bytes ms ++ after).toArray (extent (ms.take i)) m.width = some m.value := by
  obtain ⟨inside, rfl⟩ := List.getElem?_eq_some_iff.mp found
  have split : bytes ms = bytes (ms.take i) ++ (Bytes.ofWord ms[i].width ms[i].value ++ bytes (ms.drop (i + 1))) := by
    conv => lhs; rw [← List.take_append_drop i ms, List.drop_eq_getElem_cons inside]
    rw [bytes, List.flatMap_append, List.flatMap_cons]
    rfl
  rw [split, List.append_assoc, List.append_assoc, ← bytesLength]
  exact Bytes.loadOfWord (fits _ (List.getElem_mem inside)) _ _

end Member

/-- What a descriptor's memory holds besides its fields: the addresses that stand for the shorty's
text, a hook record and the trampoline, and the bytes between the fields. -/
structure Host where
  text : UInt64
  record : Nat → UInt64
  trampoline : UInt64
  reserved : UInt16
  padding : UInt32

namespace Descriptor

def members (h : Host) (d : Descriptor) : List Member :=
  [⟨"declaring_class", 4, (classWord d.declaringClass).toNat⟩,
    ⟨"access_flags", 4, d.accessFlags.toNat⟩,
    ⟨"method_index", 4, d.methodIndex.toNat⟩,
    ⟨"method_id", 4, d.methodId.toNat⟩,
    ⟨"registers_size", 2, d.registersSize.toNat⟩,
    ⟨"ins_size", 2, d.insSize.toNat⟩,
    ⟨"outs_size", 2, d.outsSize.toNat⟩,
    ⟨"reserved", 2, h.reserved.toNat⟩,
    ⟨"frame_size", 4, d.frameSize.toNat⟩,
    ⟨"core_spill_mask", 4, d.coreSpillMask.toNat⟩,
    ⟨"fp_spill_mask", 4, d.floatSpillMask.toNat⟩,
    ⟨"padding", 4, h.padding.toNat⟩,
    ⟨"shorty", 8, if d.shortyText.isSome then h.text.toNat else 0⟩,
    ⟨"shorty_len", 8, d.shortyLength.toNat⟩,
    ⟨"code_item", 8, d.codeItem.toNat⟩,
    ⟨"native_data", 8, match d.nativeData with
      | .word w => w.toNat
      | .record id => (h.record id).toNat⟩,
    ⟨"entry_point", 8, match d.entryPoint with
      | .code address => address.toNat
      | .trampoline => h.trampoline.toNat⟩]

def bytes (h : Host) (d : Descriptor) : List UInt8 := Member.bytes (d.members h) ++ d.trailing

theorem membersExtent (h : Host) (d : Descriptor) :
    Member.extent (d.members h) = Layout.compiled.descriptorSize.toNat := by
  simp [Member.extent, members, Layout.compiled]

theorem membersFit (h : Host) (d : Descriptor) : ∀ m ∈ d.members h, m.value < 256 ^ m.width := by
  have data : (match d.nativeData with | .word w => w.toNat | .record id => (h.record id).toNat) < 2 ^ 64 := by
    split <;> exact UInt64.toNat_lt _
  have entry : (match d.entryPoint with | .code a => a.toNat | .trampoline => h.trampoline.toNat) < 2 ^ 64 := by
    split <;> exact UInt64.toNat_lt _
  have text : (if d.shortyText.isSome then h.text.toNat else 0) < 2 ^ 64 := by
    split
    next => exact UInt64.toNat_lt _
    next => decide
  simp only [members, List.forall_mem_cons, List.not_mem_nil, false_implies, implies_true, and_true]
  exact ⟨UInt32.toNat_lt _, UInt32.toNat_lt _, UInt32.toNat_lt _, UInt32.toNat_lt _, UInt16.toNat_lt _,
    UInt16.toNat_lt _, UInt16.toNat_lt _, UInt16.toNat_lt _, UInt32.toNat_lt _, UInt32.toNat_lt _,
    UInt32.toNat_lt _, UInt32.toNat_lt _, text, UInt64.toNat_lt _, UInt64.toNat_lt _, data, entry⟩

theorem bytesLength (h : Host) (d : Descriptor) :
    (d.bytes h).length = Layout.compiled.descriptorSize.toNat + d.trailing.length := by
  rw [bytes, List.length_append, Member.bytesLength, membersExtent]

def cut (size : Nat) (d : Descriptor) : Descriptor :=
  { d with trailing := d.trailing.take (size - Layout.compiled.descriptorSize.toNat) }

theorem cutBytes (h : Host) {size : Nat} (large : Layout.compiled.descriptorSize.toNat ≤ size) (d : Descriptor) :
    (d.cut size).bytes h = (d.bytes h).take size := by
  have ends : size = (Member.bytes (d.members h)).length + (size - Layout.compiled.descriptorSize.toNat) := by
    rw [Member.bytesLength, membersExtent, Nat.add_sub_cancel' large]
  conv => rhs; rw [bytes, ends, List.take_length_add_append]
  rfl

theorem membersNamed (h : Host) (d : Descriptor) : ∀ f ∈ Layout.compiled.fields,
    ∃ i m, (d.members h)[i]? = some m ∧ m.name = f.1 ∧ Member.extent ((d.members h).take i) = f.2.toNat := by
  simp only [Layout.fields, List.forall_mem_cons, List.not_mem_nil, false_implies, implies_true, and_true]
  refine ⟨⟨1, _, rfl, rfl, ?_⟩, ⟨4, _, rfl, rfl, ?_⟩, ⟨5, _, rfl, rfl, ?_⟩, ⟨6, _, rfl, rfl, ?_⟩,
    ⟨15, _, rfl, rfl, ?_⟩, ⟨16, _, rfl, rfl, ?_⟩⟩
  all_goals simp [Member.extent, members, Layout.compiled]

end Descriptor

theorem Layout.validOffsets {l : Layout} (valid : l.validate = .ok ()) :
    l.fields = compiled.fields ∧ compiled.descriptorSize.toNat ≤ l.descriptorSize.toNat := by
  unfold validate at valid
  split at valid
  next => cases valid
  next =>
    split at valid
    next => cases valid
    next same =>
      split at valid
      next => cases valid
      next large =>
        refine ⟨?_, UInt64.le_iff_toNat_le.mp (UInt64.not_lt.mp large)⟩
        simp only [fieldError?, List.findSome?_eq_none_iff, fields, List.zip_cons_cons, List.zip_nil_right,
          List.forall_mem_cons, ite_eq_left_iff, reduceCtorEq, imp_false, Decidable.not_not] at same
        obtain ⟨flags, registers, ins, outs, data, entry, -⟩ := same
        simp [fields, flags, registers, ins, outs, data, entry]

theorem Layout.validCopySize {l : Layout} (valid : l.validate = .ok ()) : l.copySize = l.descriptorSize := by
  have large := (validOffsets valid).2
  change (if l.descriptorSize ≤ compiled.descriptorSize then compiled.descriptorSize else l.descriptorSize) = _
  split
  next small => exact UInt64.le_antisymm (UInt64.le_iff_toNat_le.mpr large) small
  next => rfl

namespace Snapshot

def bytes (h : Host) (s : Snapshot) : List UInt8 := s.descriptor.bytes h ++ List.replicate s.slack 0

structure Copies (h : Host) (l : Layout) (slack : UInt64) (d : Descriptor) (s : Snapshot) : Prop where
  copied : s.copied = l.descriptorSize.toNat
  size : s.size = l.descriptorSize.toNat + slack.toNat
  length : (s.bytes h).length = s.size
  live : (s.bytes h).take s.copied = (d.bytes h).take s.copied
  zero : (s.bytes h).drop s.copied = List.replicate slack.toNat 0
  fields : ∀ i m, (d.members h)[i]? = some m →
    Bytes.load? (s.bytes h).toArray (Member.extent ((d.members h).take i)) m.width = some m.value
  reported : ∀ f ∈ l.fields, ∃ m ∈ d.members h, m.name = f.1 ∧
    Bytes.load? (s.bytes h).toArray f.2.toNat m.width = some m.value

theorem bytesLength (h : Host) (s : Snapshot) (enough : s.copied ≤ s.size) : (s.bytes h).length = s.size := by
  rw [bytes, List.length_append, List.length_replicate, Descriptor.bytesLength]
  exact Nat.add_sub_cancel' enough

section
variable {h : Host} {l : Layout} {slack : UInt64} {d : Descriptor} {s : Snapshot}

theorem loadField (s : Snapshot) : ∀ i m, (s.descriptor.members h)[i]? = some m →
    Bytes.load? (s.bytes h).toArray (Member.extent ((s.descriptor.members h).take i)) m.width = some m.value := by
  intro i m found
  rw [bytes, Descriptor.bytes, List.append_assoc]
  exact Member.loadMember (s.descriptor.membersFit h) found _

theorem copiedCut (valid : l.validate = .ok ()) (readable : l.descriptorSize.toNat ≤ (d.bytes h).length)
    (size : Nat) : copied ⟨d.cut l.descriptorSize.toNat, size⟩ = l.descriptorSize.toNat := by
  have large := (Layout.validOffsets valid).2
  rw [Descriptor.bytesLength] at readable
  rw [copied, Descriptor.cut, List.length_take]
  omega

theorem copiesCut (valid : l.validate = .ok ()) (readable : l.descriptorSize.toNat ≤ (d.bytes h).length) :
    Copies h l slack d ⟨d.cut l.descriptorSize.toNat, l.descriptorSize.toNat + slack.toNat⟩ := by
  obtain ⟨offsets, large⟩ := Layout.validOffsets valid
  have copied := copiedCut (h := h) valid readable (l.descriptorSize.toNat + slack.toNat)
  generalize made : (⟨d.cut l.descriptorSize.toNat, l.descriptorSize.toNat + slack.toNat⟩ : Snapshot) = s at copied
  have size : s.size = l.descriptorSize.toNat + slack.toNat := by rw [← made]
  have live : s.descriptor.bytes h = (d.bytes h).take s.copied := by
    rw [copied, ← made]
    exact Descriptor.cutBytes h large d
  have zeros : s.slack = slack.toNat := by rw [Snapshot.slack, size, copied, Nat.add_sub_cancel_left]
  have ends : (s.descriptor.bytes h).length = s.copied := Descriptor.bytesLength h _
  have fields : ∀ i m, (d.members h)[i]? = some m →
      Bytes.load? (s.bytes h).toArray (Member.extent ((d.members h).take i)) m.width = some m.value := by
    have same : s.descriptor.members h = d.members h := by rw [← made]; rfl
    rw [← same]
    exact loadField s
  refine ⟨copied, size, bytesLength h s (by omega), ?_, ?_, fields, ?_⟩
  · rw [bytes, List.take_left' ends, live]
  · rw [bytes, List.drop_left' ends, zeros]
  · intro f reported
    rw [offsets] at reported
    obtain ⟨i, m, found, name, offset⟩ := d.membersNamed h f reported
    exact ⟨m, List.mem_of_getElem? found, name, offset ▸ fields i m found⟩

end

/-- What a capture gives under any accepted layout and any slack, the descriptor's memory being as long as the
layout says: the copy that was asked for, or none. For lack of memory it fails cleanly; where the size of the
buffer overflows, the sum is a fault. -/
theorem snapshotCopies {l : Layout} (valid : l.validate = .ok ()) {h : Host} {d : Descriptor}
    (readable : l.descriptorSize.toNat ≤ (d.bytes h).length) (slack : UInt64) :
    (l.descriptorSize.toNat + slack.toNat < addressSpace →
      ∃ s, capture l slack d = .ok (.ok s) ∧ s.Copies h l slack d) ∧
    (addressSpace ≤ l.descriptorSize.toNat + slack.toNat → l.descriptorSize.toNat + slack.toNat < 2 ^ 64 →
      capture l slack d = .ok (.error (.outOfMemory "hook snapshot"))) ∧
    (2 ^ 64 ≤ l.descriptorSize.toNat + slack.toNat → capture l slack d = .error .sizeOverflow) := by
  have size := Layout.validCopySize valid
  refine ⟨fun small => ?_, fun large fits => ?_, fun overflows => ?_⟩
  · have fits : l.copySize.toNat + slack.toNat < UInt64.size := by
      rw [size]
      exact Nat.lt_trans small (by decide)
    rw [captureFits fits, size, if_neg (Nat.not_le_of_lt small)]
    exact ⟨_, rfl, copiesCut valid readable⟩
  · rw [captureFits (size ▸ fits), size, if_pos large]
  · exact captureOverflows (size ▸ overflows)

end Snapshot

namespace Sample

def vendorLayout : Layout := { Layout.compiled with descriptorSize := 104 }

def vendorMethod : Descriptor := Method.descriptorOf vendorLayout 1 .object Descriptor.staticFlag [86]

def vendorHost : Host := ⟨0x5000, fun _ => 0x6000, 0x7000, 0, 0⟩

example : Layout.compiled.withTrailingBytes 24 = .ok vendorLayout := rfl

end Sample

namespace Snapshot
open Sample

theorem vendorReadable : vendorLayout.descriptorSize.toNat ≤ (vendorMethod.bytes vendorHost).length := by
  rw [Descriptor.bytesLength]
  decide

theorem vendorCopied : vendorLayout.validate = .ok () ∧ 104 ≤ (vendorMethod.bytes vendorHost).length ∧
    ∃ s, capture vendorLayout 16 vendorMethod = .ok (.ok s) ∧ s.Copies vendorHost vendorLayout 16 vendorMethod :=
  ⟨rfl, vendorReadable, (snapshotCopies rfl vendorReadable 16).1 (by decide)⟩

theorem slackOverflows : vendorLayout.validate = .ok () ∧ 104 ≤ (vendorMethod.bytes vendorHost).length ∧
    capture vendorLayout 0xFFFFFFFFFFFFFFFF vendorMethod = .error .sizeOverflow :=
  ⟨rfl, vendorReadable, captureOverflows (by decide)⟩

end Snapshot
end Detour
