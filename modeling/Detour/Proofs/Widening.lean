import Detour.Value
import Mathlib.Tactic.Common

/-! Widening of primitive values. The order of the kinds and the conversion of values are defined apart from
one another; here they agree on every value, and an integer goes through any chain of integral kinds as it
is, so that only the first and the last kind of the chain matter. -/
namespace Detour

namespace Tag

def isIntegral : Tag → Bool
  | byte | char | short | int | long => true
  | _ => false

def Holds (t : Tag) (n : Int) : Prop :=
  match t with
  | byte => -0x80 ≤ n ∧ n < 0x80
  | char => 0 ≤ n ∧ n < 0x10000
  | short => -0x8000 ≤ n ∧ n < 0x8000
  | int => -0x80000000 ≤ n ∧ n < 0x80000000
  | long => -0x8000000000000000 ≤ n ∧ n < 0x8000000000000000
  | _ => False

variable {s t u : Tag} {n : Int}

theorem widensToIff : s.widensTo t = true ↔ s = t ∧ s.isPrimitive = true ∨ t ∈ s.wider := by
  cases s <;> cases t <;> decide

theorem holdsWider (wider : t ∈ s.wider) (integral : t.isIntegral = true) (holds : s.Holds n) : t.Holds n := by
  cases s <;> simp only [Holds] at holds <;> cases t <;> simp [Tag.wider, isIntegral] at wider integral <;>
    simp only [Holds] <;> omega

theorem widerTrans (first : t ∈ s.wider) (second : u ∈ t.wider) : u ∈ s.wider := by
  revert first second
  cases s <;> cases t <;> cases u <;> decide

theorem notWiderThanItself (t : Tag) : t ∉ t.wider := by cases t <;> decide

end Tag

namespace Value

variable {v w x : Value} {t u : Tag} {n : Int}

theorem integerHolds (denotes : v.integer? = some n) : v.tag.Holds n := by
  cases v <;> cases denotes
  case byte v => exact ⟨v.le_toInt, v.toInt_lt⟩
  case char v => exact ⟨Int.natCast_nonneg _, Int.ofNat_lt.mpr v.toNat_lt⟩
  case short v => exact ⟨v.le_toInt, v.toInt_lt⟩
  case int v => exact ⟨v.le_toInt, v.toInt_lt⟩
  case long v => exact ⟨v.le_toInt, v.toInt_lt⟩

theorem integerOf (integral : v.tag.isIntegral = true) : ∃ n, v.integer? = some n := by
  cases v <;> first | exact ⟨_, rfl⟩ | contradiction

theorem ofIntegerTag (made : ofInteger t n = some v) : v.tag = t := by
  cases t <;> cases made <;> rfl

theorem ofIntegerExact (holds : t.Holds n) (made : ofInteger t n = some v) : v.integer? = some n := by
  cases t <;> cases made
  case short => exact congrArg some (Int16.toInt_ofInt_of_le holds.1 holds.2)
  case int => exact congrArg some (Int32.toInt_ofInt_of_le holds.1 holds.2)
  case long => exact congrArg some (Int64.toInt_ofInt_of_le holds.1 holds.2)
  case float => exact holds.elim
  case double => exact holds.elim

inductive Widens : Value → Tag → Value → Prop
  | same {v : Value} (kind : v.tag.isPrimitive = true) : Widens v v.tag v
  | float (bits : UInt32) :
    Widens (.float bits) .double (.double (Rounding.extend bits.toNat).toUInt64)
  | integer {v x : Value} {t : Tag} {n : Int} (wider : t ∈ v.tag.wider) (denotes : v.integer? = some n)
    (made : ofInteger t n = some x) : Widens v t x

theorem widensAllowed (widens : Widens v t x) : v.tag.widensTo t = true := by
  cases widens with
  | same kind => exact Tag.widensToIff.mpr (.inl ⟨rfl, kind⟩)
  | float => rfl
  | integer wider => exact Tag.widensToIff.mpr (.inr wider)

theorem ofIntegerSome (wider : t ∈ v.tag.wider) (n : Int) : ∃ x, ofInteger t n = some x := by
  generalize v.tag = s at wider
  cases s <;> cases t <;> first | exact ⟨_, rfl⟩ | exact absurd wider (by decide)

theorem widensOf (allowed : v.tag.widensTo t = true) : ∃ x, Widens v t x := by
  rcases Tag.widensToIff.mp allowed with ⟨rfl, kind⟩ | wider
  · exact ⟨v, .same kind⟩
  · cases v with
    | float bits =>
      obtain rfl : t = .double := by simpa [tag, Tag.wider] using wider
      exact ⟨_, .float bits⟩
    | byte | char | short | int | long =>
      obtain ⟨x, made⟩ := ofIntegerSome wider _
      exact ⟨x, .integer wider rfl made⟩
    | _ => simp [tag, Tag.wider] at wider

theorem widensRun (widens : Widens v t x) : v.widenTo t = some x := by
  have allowed := widensAllowed widens
  unfold widenTo
  rw [allowed]
  cases widens with
  | same => simp
  | float => rfl
  | @integer v t n x wider denotes made =>
    have apart : v.tag ≠ t := by
      rintro rfl
      exact Tag.notWiderThanItself _ wider
    rw [if_neg (by simp), if_neg apart]
    cases v <;> first | exact made ▸ congrArg (·.bind (ofInteger t)) denotes | contradiction

theorem widenToIff : v.widenTo t = some x ↔ Widens v t x := by
  refine ⟨fun run => ?_, widensRun⟩
  have allowed : v.tag.widensTo t = true := by
    by_contra refused
    simp [widenTo, refused] at run
  obtain ⟨y, widens⟩ := widensOf allowed
  cases run.symm.trans (widensRun widens)
  exact widens

theorem widenTag (widens : v.widenTo t = some x) : x.tag = t := by
  cases widenToIff.mp widens with
  | same => rfl
  | float => rfl
  | integer _ _ made => exact ofIntegerTag made

theorem widenSame (kind : v.tag.isPrimitive = true) : v.widenTo v.tag = some v :=
  widensRun (.same kind)

theorem Widens.exact (widens : Widens v t x) (integral : t.isIntegral = true) :
    ∃ n, v.integer? = some n ∧ x.integer? = some n := by
  cases widens with
  | same =>
    obtain ⟨n, denotes⟩ := integerOf integral
    exact ⟨n, denotes, denotes⟩
  | float => contradiction
  | integer wider denotes made =>
    have room := Tag.holdsWider wider integral (integerHolds denotes)
    exact ⟨_, denotes, ofIntegerExact room made⟩

theorem Widens.through (integral : u.isIntegral = true) (first : Widens v u w) (second : Widens w t x) :
    Widens v t x := by
  obtain ⟨n, before, between⟩ := first.exact integral
  cases first with
  | same => exact second
  | float => contradiction
  | integer narrower denotes made =>
    obtain rfl := ofIntegerTag made
    cases second with
    | same => exact .integer narrower denotes made
    | float => contradiction
    | integer wider denotes' made' =>
      cases denotes'.symm.trans between
      exact .integer (Tag.widerTrans narrower wider) before made'

end Value

theorem valuesWiden (v : Value) (t : Tag) :
    (v.widenTo t).isSome = v.tag.widensTo t ∧
      (∀ x, v.widenTo t = some x →
        x.tag = t ∧ (t.isIntegral = true → ∃ n, v.integer? = some n ∧ x.integer? = some n)) ∧
      ∀ u w x, u.isIntegral = true → v.widenTo u = some w → w.widenTo t = some x → v.widenTo t = some x := by
  refine ⟨?_, fun x widens => ⟨Value.widenTag widens, (Value.widenToIff.mp widens).exact⟩,
    fun u w x integral first second => ?_⟩
  · rw [Bool.eq_iff_iff, Option.isSome_iff_exists]
    constructor
    · rintro ⟨x, widens⟩
      exact Value.widensAllowed (Value.widenToIff.mp widens)
    · intro allowed
      obtain ⟨x, widens⟩ := Value.widensOf allowed
      exact ⟨x, Value.widensRun widens⟩
  · exact Value.widensRun ((Value.widenToIff.mp first).through integral (Value.widenToIff.mp second))

theorem leastShortWidens :
    (Value.short (-32768)).widenTo .long = some (.long (-32768)) ∧
      (Value.short (-32768)).widenTo .float = some (.float 0xC7000000) ∧
      ∃ n, (Value.short (-32768)).integer? = some n ∧ (Value.long (-32768)).integer? = some n := by
  have first : (Value.short (-32768)).widenTo .long = some (.long (-32768)) := by decide
  have last : (Value.long (-32768)).widenTo .float = some (.float 0xC7000000) := by decide
  exact ⟨first, (valuesWiden (.short (-32768)) .float).2.2 .long _ _ rfl first last,
    ((valuesWiden (.short (-32768)) .long).2.1 _ first).2 rfl⟩

end Detour
