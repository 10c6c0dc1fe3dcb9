import Detour.Abi
import Mathlib.Order.Bounds.Basic

/-! The geometry of a frame for whatever registers it saves, as long as its words are of one size. The two spill
areas fill the frame from its end downwards and leave the method word alone; a register's place in its area is the
number of saved registers before it, so registers keep their order, and their places lie apart. -/
namespace Detour

section
variable {mask : UInt32} {r s : Nat}

theorem maskIff : r ∈ maskRegisters mask ↔ r < 32 ∧ mask.toNat.testBit r = true := by
  simp [maskRegisters]

theorem maskAscends (mask : UInt32) : (maskRegisters mask).Pairwise (· < ·) :=
  List.pairwise_lt_range.filter _

theorem maskSome (some_ : mask ≠ 0) : maskRegisters mask ≠ [] := by
  have positive : mask.toNat ≠ 0 := fun zero => some_ (UInt32.toNat_inj.mp zero)
  obtain ⟨r, set_⟩ := Nat.exists_testBit_of_ne_zero positive
  have below : r < 32 := by
    by_contra high
    have small : mask.toNat < 2 ^ r :=
      Nat.lt_of_lt_of_le mask.toNat_lt (Nat.pow_le_pow_right (by decide) (Nat.le_of_not_lt high))
    rw [Nat.testBit_lt_two_pow small] at set_
    contradiction
  exact List.ne_nil_of_mem (maskIff.mpr ⟨below, set_⟩)

theorem countBefore {list : List Nat} {i : Nat} (ascends : list.Pairwise (· < ·)) (at_ : list[i]? = some r) :
    list.countP (· < r) = i := by
  induction list generalizing i with
  | nil => contradiction
  | cons x xs ih =>
    obtain ⟨least, rest⟩ := List.pairwise_cons.mp ascends
    cases i with
    | zero =>
      obtain rfl := Option.some.inj at_
      refine List.countP_eq_zero.mpr fun y mem => ?_
      rcases List.mem_cons.mp mem with rfl | later
      · simp
      · simpa using Nat.le_of_lt (least y later)
    | succ i =>
      have later : xs[i]? = some r := at_
      rw [List.countP_cons_of_pos (by simpa using least r (List.mem_of_getElem? later)), ih rest later]

namespace Abi

theorem rankAt {i : Nat} (at_ : (maskRegisters mask)[i]? = some r) : spillRank mask r = i :=
  countBefore (maskAscends mask) at_

theorem rankBelow (saved : r ∈ maskRegisters mask) : spillRank mask r < (maskRegisters mask).length := by
  obtain ⟨i, at_⟩ := List.mem_iff_getElem?.mp saved
  rw [rankAt at_]
  exact (List.getElem?_eq_some_iff.mp at_).1

theorem rankAscends (saved : r ∈ maskRegisters mask) (also : s ∈ maskRegisters mask) (before : r < s) :
    spillRank mask r < spillRank mask s := by
  obtain ⟨i, hereI, atI⟩ := List.mem_iff_getElem.mp saved
  obtain ⟨j, hereJ, atJ⟩ := List.mem_iff_getElem.mp also
  rw [rankAt (List.getElem?_eq_some_iff.mpr ⟨hereI, atI⟩), rankAt (List.getElem?_eq_some_iff.mpr ⟨hereJ, atJ⟩)]
  rcases Nat.lt_trichotomy i j with less | rfl | more
  · exact less
  · omega
  · have := List.pairwise_iff_getElem.mp (maskAscends mask) j i hereJ hereI more
    omega

theorem rankLast (some_ : mask ≠ 0) : ∃ top ∈ maskRegisters mask, (∀ r ∈ maskRegisters mask, r ≤ top) ∧
    spillRank mask top + 1 = (maskRegisters mask).length := by
  have positive := List.length_pos_iff.mpr (maskSome some_)
  have last : (maskRegisters mask).length - 1 < (maskRegisters mask).length := by omega
  refine ⟨(maskRegisters mask)[(maskRegisters mask).length - 1], List.getElem_mem last, fun r saved => ?_, ?_⟩
  · obtain ⟨i, here, rfl⟩ := List.mem_iff_getElem.mp saved
    rcases Nat.lt_or_ge i ((maskRegisters mask).length - 1) with less | most
    · exact Nat.le_of_lt (List.pairwise_iff_getElem.mp (maskAscends mask) i _ here last less)
    · exact Nat.le_of_eq (by congr 1; omega)
  · rw [rankAt (List.getElem?_eq_getElem last)]
    omega

theorem rankBits (below : r < 32) :
    spillRank mask r = (maskRegisters (mask &&& ((1 <<< r.toUInt32) - 1))).length := by
  -- The mask under bit `r` is a subtraction that does not wrap, as `r` is a register.
  have bits : (mask &&& ((1 <<< r.toUInt32) - 1)).toNat = mask.toNat &&& (2 ^ r - 1) := by
    have number : r.toUInt32.toNat = r := UInt32.toNat_ofNat_of_lt' (Nat.lt_trans below (by decide))
    have less : 2 ^ r < 2 ^ 32 := Nat.pow_lt_pow_right (by decide) below
    have one : ((1 : UInt32) <<< r.toUInt32).toNat = 2 ^ r := by
      rw [UInt32.toNat_shiftLeft, number, Nat.mod_eq_of_lt below, Nat.shiftLeft_eq, UInt32.toNat_one, Nat.one_mul,
        Nat.mod_eq_of_lt less]
    rw [UInt32.toNat_and, UInt32.toNat_sub_of_le _ _ (UInt32.le_iff_toNat_le.mpr ?_), one, UInt32.toNat_one]
    rw [one]
    exact Nat.one_le_two_pow
  rw [spillRank, maskRegisters, maskRegisters, List.countP_filter, bits, List.countP_eq_length_filter]
  congr 1
  exact List.filter_congr fun s _ => by simp

structure Uniform (abi : Abi) (p : Nat) : Prop where
  positive : 0 < p
  pointer : abi.pointerSize = p
  core : abi.coreSize = p
  float : abi.floatSize = p
  free : abi.fixedCoreBase = none
  distinct : abi.argRegisters.Nodup
  numbered : ∀ r ∈ abi.argRegisters, r < 32
  saved : ∀ r ∈ abi.argRegisters, abi.coreMask.toNat.testBit r = true

variable {abi : Abi} {p i j : Nat}

theorem frameLeast (abi : Abi) :
    IsLeast {n | 16 ∣ n ∧ (abi.coreSpills + abi.floatSpills + 1) * abi.pointerSize ≤ n} abi.frameSize := by
  unfold frameSize roundUp
  refine ⟨⟨⟨_, Nat.mul_comm _ _⟩, ?_⟩, fun n ⟨whole, enough⟩ => ?_⟩ <;> omega

theorem roundUpBits {n : Nat} (fits : n + 15 < UInt64.size) :
    roundUp n 16 = ((n.toUInt64 + 15) &&& ~~~15).toNat := by
  have sum : (n.toUInt64 + 15).toNat = n + 15 := by
    have number : n.toUInt64.toNat = n := UInt64.toNat_ofNat_of_lt' (by omega)
    rw [UInt64.toNat_add, number]
    exact Nat.mod_eq_of_lt fits
  have mask : (~~~15 : UInt64).toNat = (2 ^ 60 - 1) <<< 4 := by decide
  rw [UInt64.toNat_and, sum, mask, roundUp, show n + 16 - 1 = n + 15 by omega,
    show (n + 15) / 16 * 16 = ((n + 15) >>> 4) <<< 4 by simp [Nat.shiftRight_eq_div_pow, Nat.shiftLeft_eq]]
  refine Nat.eq_of_testBit_eq fun i => ?_
  rw [Nat.testBit_and, Nat.testBit_shiftLeft, Nat.testBit_shiftLeft, Nat.testBit_shiftRight,
    Nat.testBit_two_pow_sub_one]
  by_cases low : 4 ≤ i
  · by_cases high : i - 4 < 60
    · simp [low, high]
    · have none_ : (n + 15).testBit i = false :=
        Nat.testBit_lt_two_pow (Nat.lt_of_lt_of_le fits
          (Nat.pow_le_pow_right (show 0 < 2 by decide) (show 64 ≤ i by omega)))
      simp [low, none_]
  · simp [low]

namespace Uniform

theorem areas (uniform : abi.Uniform p) : p ≤ abi.floatBase ∧ abi.floatBase + abi.floatSpills * p = abi.coreBase ∧
    abi.coreBase + abi.coreSpills * p = abi.frameSize := by
  obtain ⟨_, enough⟩ := (frameLeast abi).1
  rw [uniform.pointer, Nat.add_mul, Nat.add_mul] at enough
  simp only [floatBase, coreBase, uniform.core, uniform.float, uniform.free, Option.getD_none]
  omega

theorem isSaved (uniform : abi.Uniform p) (mem : r ∈ abi.argRegisters) : r ∈ maskRegisters abi.coreMask :=
  maskIff.mpr ⟨uniform.numbered r mem, uniform.saved r mem⟩

theorem argument (uniform : abi.Uniform p) (at_ : abi.argRegisters[i]? = some r) :
    r ∈ maskRegisters abi.coreMask ∧
      abi.coreArgOffset i = .ok (abi.coreBase + spillRank abi.coreMask r * p) := by
  refine ⟨uniform.isSaved (List.mem_of_getElem? at_), ?_⟩
  simp [coreArgOffset, at_, uniform.free, uniform.core]

theorem offsetParts {a : Nat} (uniform : abi.Uniform p) (offset : abi.coreArgOffset i = .ok a) :
    ∃ r, abi.argRegisters[i]? = some r ∧ a = abi.coreBase + spillRank abi.coreMask r * p := by
  cases at_ : abi.argRegisters[i]? with
  | none => simp [coreArgOffset, at_] at offset
  | some r => exact ⟨r, rfl, Except.ok.inj (offset.symm.trans (uniform.argument at_).2)⟩

theorem apart (uniform : abi.Uniform p) (atI : abi.argRegisters[i]? = some r) (atJ : abi.argRegisters[j]? = some s)
    (differ : i ≠ j) : spillRank abi.coreMask r * p + p ≤ spillRank abi.coreMask s * p ∨
      spillRank abi.coreMask s * p + p ≤ spillRank abi.coreMask r * p := by
  have savedR := (uniform.argument atI).1
  have savedS := (uniform.argument atJ).1
  have other : r ≠ s := by
    rintro rfl
    obtain ⟨below, _⟩ := List.getElem?_eq_some_iff.mp atI
    exact differ ((List.getElem?_inj below uniform.distinct).mp (atI.trans atJ.symm))
  have step {a b : Nat} (less : a < b) : a * p + p ≤ b * p := by
    rw [← Nat.succ_mul]
    exact Nat.mul_le_mul_right p less
  rcases Nat.lt_or_gt_of_ne other with less | more
  · exact .inl (step (rankAscends savedR savedS less))
  · exact .inr (step (rankAscends savedS savedR more))

end Uniform
end Abi

/-- A frame is as small as its words and its alignment allow. Its spill areas lie one above the other and end with
it, and the method word lies under both. Argument registers are saved in the order of their numbers, each at a place
of its own, told by the bits of the mask under its own; the return address takes the place of the last register. -/
theorem frameGeometry (abi : Abi) (p : Nat) (uniform : abi.Uniform p) :
    IsLeast {n | 16 ∣ n ∧ (abi.coreSpills + abi.floatSpills + 1) * p ≤ n} abi.frameSize ∧
      ((abi.coreSpills + abi.floatSpills + 1) * p + 15 < UInt64.size → abi.frameSize =
        ((((abi.coreSpills + abi.floatSpills + 1) * p).toUInt64 + 15) &&& ~~~15).toNat) ∧
      p ≤ abi.floatBase ∧ abi.floatBase + abi.floatSpills * p = abi.coreBase ∧
      abi.coreBase + abi.coreSpills * p = abi.frameSize ∧
      (∀ i r, abi.argRegisters[i]? = some r →
        abi.coreArgOffset i = .ok (abi.coreBase + Abi.spillRank abi.coreMask r * p) ∧
        Abi.spillRank abi.coreMask r < abi.coreSpills ∧
        Abi.spillRank abi.coreMask r = (maskRegisters (abi.coreMask &&& ((1 <<< r.toUInt32) - 1))).length) ∧
      (∀ r ∈ abi.argRegisters, ∀ s ∈ abi.argRegisters, r < s →
        Abi.spillRank abi.coreMask r < Abi.spillRank abi.coreMask s) ∧
      (∀ i j a b, i ≠ j → abi.coreArgOffset i = .ok a → abi.coreArgOffset j = .ok b → a + p ≤ b ∨ b + p ≤ a) ∧
      (abi.coreMask ≠ 0 → ∃ top ∈ maskRegisters abi.coreMask, (∀ r ∈ maskRegisters abi.coreMask, r ≤ top) ∧
        abi.returnOffset = abi.coreBase + Abi.spillRank abi.coreMask top * p) := by
  obtain ⟨method, float, core⟩ := uniform.areas
  refine ⟨uniform.pointer ▸ abi.frameLeast, uniform.pointer ▸ Abi.roundUpBits, method, float, core,
    fun i r at_ => ?_, fun r memR s memS => ?_, fun i j a b differ atI atJ => ?_, fun some_ => ?_⟩
  · obtain ⟨saved, offset⟩ := uniform.argument at_
    exact ⟨offset, Abi.rankBelow saved, Abi.rankBits (maskIff.mp saved).1⟩
  · exact Abi.rankAscends (uniform.isSaved memR) (uniform.isSaved memS)
  · obtain ⟨r, thereR, rfl⟩ := uniform.offsetParts atI
    obtain ⟨s, thereS, rfl⟩ := uniform.offsetParts atJ
    have := uniform.apart thereR thereS differ
    omega
  · obtain ⟨top, saved, last, rank⟩ := Abi.rankLast some_
    refine ⟨top, saved, last, ?_⟩
    have whole : abi.coreSpills * p = Abi.spillRank abi.coreMask top * p + p := by
      rw [Abi.coreSpills, ← rank, Nat.succ_mul]
    rw [Abi.returnOffset, uniform.pointer]
    omega

theorem permutedRegisters : Architecture.x86_64.abi.Uniform 8 ∧ ∃ top ∈ maskRegisters Architecture.x86_64.abi.coreMask,
    Architecture.x86_64.abi.returnOffset =
      Architecture.x86_64.abi.coreBase + Abi.spillRank Architecture.x86_64.abi.coreMask top * 8 ∧
    Architecture.x86_64.abi.coreArgOffset 0 = .ok (Architecture.x86_64.abi.coreBase + 4 * 8) ∧
    Architecture.x86_64.abi.coreArgOffset 1 = .ok (Architecture.x86_64.abi.coreBase + 1 * 8) := by
  have uniform : Architecture.x86_64.abi.Uniform 8 :=
    ⟨by decide, rfl, rfl, rfl, rfl, by decide, by decide, by decide⟩
  obtain ⟨_, _, _, _, _, arguments, _, _, top⟩ := frameGeometry _ 8 uniform
  obtain ⟨last, saved, _, at_⟩ := top (by decide)
  exact ⟨uniform, last, saved, at_, (arguments 0 6 rfl).1, (arguments 1 2 rfl).1⟩

end
end Detour
