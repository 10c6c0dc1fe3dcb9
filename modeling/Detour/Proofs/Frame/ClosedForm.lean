import Detour.Proofs.Frame.Places

/-! The place of an argument read off the arguments before it. A soft-float call numbers the words of its
arguments through, those of the first in registers and the rest on the stack; a hard-float call counts
floating-point arguments and the others apart, and keeps a stack word for every word it passes. -/
namespace Detour

def Tag.isFloating : Tag → Bool
  | .float | .double => true
  | _ => false

namespace Abi

def words : List Tag → Nat
  | [] => 0
  | t :: before => t.words + words before

def floats (before : List Tag) : Nat := before.countP Tag.isFloating

def others (before : List Tag) : Nat := before.countP fun t => !t.isFloating

theorem wordsAppend (before after : List Tag) : words (before ++ after) = words before + words after := by
  induction before with
  | nil => simp [words]
  | cons t before ih => simp only [List.cons_append, words, ih, Nat.add_assoc]

theorem wordsPast (before : List Tag) (t : Tag) : words (before ++ [t]) = words before + t.words :=
  wordsAppend before [t]

theorem floatsPast (before : List Tag) (t : Tag) :
    floats (before ++ [t]) = floats before + t.isFloating.toNat := by
  cases floating : t.isFloating <;> simp [floats, floating]

theorem othersPast (before : List Tag) (t : Tag) :
    others (before ++ [t]) = others before + (!t.isFloating).toNat := by
  cases floating : t.isFloating <;> simp [others, floating]

def cursorAfter (abi : Abi) (before : List Tag) : Cursor :=
  if abi.softFloat then ⟨min (words before) abi.coreArgs, 0, words before - abi.coreArgs⟩
  else ⟨min (others before) abi.coreArgs, min (floats before) abi.floatArgs, words before⟩

def slotAfter (abi : Abi) (before : List Tag) (t : Tag) : Slot :=
  if abi.softFloat then
    ⟨t, if words before < abi.coreArgs then .core (words before) else .stack (words before - abi.coreArgs),
      t.isWide && words before + 1 == abi.coreArgs⟩
  else if t.isFloating then
    ⟨t, if floats before < abi.floatArgs then .float (floats before) else .stack (words before), false⟩
  else ⟨t, if others before < abi.coreArgs then .core (others before) else .stack (words before), false⟩

variable {abi : Abi}

theorem placeTag (abi : Abi) (c : Cursor) (t : Tag) : (c.place abi t).1.tag = t := by
  simpa [Cursor.placeAll] using placeAllTags abi c [t]

theorem softPlaces (soft : abi.softFloat = true) {before : List Tag} {slot : Slot} {next : Cursor}
    (placed : Cursor.Places abi (abi.cursorAfter before) slot next) :
    slot = abi.slotAfter before slot.tag ∧ next = abi.cursorAfter (before ++ [slot.tag]) := by
  have stands : abi.cursorAfter before =
      ⟨min (words before) abi.coreArgs, 0, words before - abi.coreArgs⟩ := by simp [cursorAfter, soft]
  cases placed with
  | @word t _ narrow room =>
    simp only [stands] at room ⊢
    have one : t.words = 1 := by simp [Tag.words, narrow]
    have fits : words before < abi.coreArgs := by omega
    simp [slotAfter, cursorAfter, soft, narrow, wordsPast, one, fits]
    omega
  | @pair t _ wide room =>
    simp only [stands] at room ⊢
    have two : t.words = 2 := by simp [Tag.words, wide]
    have fits : words before < abi.coreArgs := by omega
    simp [slotAfter, cursorAfter, soft, wide, wordsPast, two, fits]
    omega
  | @split t _ wide last =>
    simp only [stands] at last ⊢
    have two : t.words = 2 := by simp [Tag.words, wide]
    have fits : words before < abi.coreArgs := by omega
    simp [slotAfter, cursorAfter, soft, wide, wordsPast, two, fits]
    omega
  | register hard | float hard => simp [soft] at hard
  | @stack t full =>
    have full := full soft
    simp only [stands] at full ⊢
    have past : ¬ words before < abi.coreArgs := by omega
    simp [slotAfter, cursorAfter, soft, wordsPast, past]
    omega

theorem placeHard (regular : abi.Regular) (hard : abi.softFloat = false) (c : Cursor) (t : Tag) :
    c.place abi t =
      if t.isFloating then
        (⟨t, c.floatLocation abi, false⟩,
          ⟨c.core, if c.float < abi.floatArgs then c.float + 1 else c.float, c.stack + t.words⟩)
      else
        (⟨t, c.coreLocation abi, false⟩,
          ⟨if c.core < abi.coreArgs then c.core + 1 else c.core, c.float, c.stack + t.words⟩) := by
  have size := regular.hard hard
  cases t <;>
    simp [Cursor.place, Cursor.oneWord, Cursor.twoWords, Cursor.floatArgument, Cursor.doubleArgument,
      Cursor.coreStackWords, Tag.isFloating, Tag.words, Tag.isWide, hard, size]

theorem registerNext (taken bound : Nat) :
    (if min taken bound < bound then min taken bound + 1 else min taken bound) = min (taken + 1) bound := by
  split <;> omega

theorem registerHere (taken bound : Nat) (register : Nat → Location) (word : Location) :
    (if min taken bound < bound then register (min taken bound) else word) =
      if taken < bound then register taken else word := by
  by_cases room : taken < bound
  · simp [room, Nat.min_eq_left (Nat.le_of_lt room)]
  · simp [room, Nat.min_eq_right (Nat.not_lt.mp room)]

theorem placed (regular : abi.Regular) (before : List Tag) (t : Tag) :
    (abi.cursorAfter before).place abi t = (abi.slotAfter before t, abi.cursorAfter (before ++ [t])) := by
  cases soft : abi.softFloat with
  | true =>
    have tag := placeTag abi (abi.cursorAfter before) t
    have inversion := softPlaces soft (Cursor.placePlaces (c := abi.cursorAfter before) regular t)
    rw [tag] at inversion
    exact Prod.ext inversion.1 inversion.2
  | false =>
    rw [placeHard regular soft]
    cases floating : t.isFloating <;>
      simp only [cursorAfter, slotAfter, Cursor.coreLocation, Cursor.floatLocation, soft, floating, wordsPast,
        floatsPast, othersPast, registerNext, registerHere, Bool.not_true, Bool.not_false, Bool.toNat_true,
        Bool.toNat_false, Bool.false_eq_true, Nat.add_zero, ↓reduceIte]

theorem placeAllAt (regular : abi.Regular) (before ts : List Tag) (i : Nat) :
    ((abi.cursorAfter before).placeAll abi ts)[i]? =
      ts[i]?.map (abi.slotAfter (before ++ ts.take i)) := by
  -- The arguments placed already are generalized, since it is from them that the cursors are told.
  induction ts generalizing before i with
  | nil => rfl
  | cons t ts ih =>
    rw [Cursor.placeAll, placed regular]
    cases i with
    | zero => simp
    | succ i => simpa using ih (before ++ [t]) i

theorem wordsBefore {ts : List Tag} {i j : Nat} {t : Tag} (found : ts[i]? = some t) (before : i < j) :
    words (ts.take i) + t.words ≤ words (ts.take j) := by
  have past : ts.take (i + 1) = ts.take i ++ [t] := by simp [List.take_add_one, found]
  have parts : ts.take j = ts.take (i + 1) ++ (ts.take j).drop (i + 1) := by
    have front : (ts.take j).take (i + 1) = ts.take (i + 1) := by simp [List.take_take]; omega
    rw [← front, List.take_append_drop]
  rw [parts, past, wordsAppend, wordsPast]
  exact Nat.le_add_right _ _

end Abi

open Abi

variable {a : Architecture} {shorty : Shorty} {isStatic : Bool}

theorem slotsAt (a : Architecture) (shorty : Shorty) (isStatic : Bool) (i : Nat) :
    (slots a.abi shorty isStatic)[i]? =
      (argumentTags shorty isStatic)[i]?.map (a.abi.slotAfter ((argumentTags shorty isStatic).take i)) := by
  have start : a.abi.cursorAfter [] = Cursor.start := by
    simp [cursorAfter, words, others, floats, Cursor.start]
  rw [slots, ← start, placeAllAt a.regular, List.nil_append]

theorem softSlot {abi : Abi} (soft : abi.softFloat = true) (three : abi.coreArgs = 3) (before : List Tag)
    (t : Tag) :
    abi.slotAfter before t =
      ⟨t, if words before < 3 then .core (words before) else .stack (words before - 3),
        t.isWide && words before == 2⟩ := by
  simp [slotAfter, soft, three]

theorem splitAlone {ts : List Tag} {i j : Nat} {s t : Tag} (foundI : ts[i]? = some s) (foundJ : ts[j]? = some t)
    (apart : j ≠ i) (wide : s.isWide = true) (meets : words (ts.take i) = 2) :
    words (ts.take j) < 2 ∨ 3 < words (ts.take j) := by
  have two : s.words = 2 := by simp [Tag.words, wide]
  have some : 1 ≤ t.words := by unfold Tag.words; split <;> omega
  rcases Nat.lt_or_gt_of_ne apart with before | after
  · have := wordsBefore foundJ before
    omega
  · have := wordsBefore foundI after
    omega

theorem splitElsewhere {abi : Abi} (soft : abi.softFloat = true) (three : abi.coreArgs = 3) {ts : List Tag}
    {i j : Nat} {s t : Tag} (foundI : ts[i]? = some s) (foundJ : ts[j]? = some t) (apart : j ≠ i)
    (split : (abi.slotAfter (ts.take i) s).split = true) :
    (abi.slotAfter (ts.take j) t).split = false ∧ (abi.slotAfter (ts.take j) t).location ≠ .stack 0 := by
  rw [softSlot soft three] at split ⊢
  have meets : s.isWide = true ∧ words (ts.take i) = 2 := by simpa using split
  have alone := splitAlone foundI foundJ apart meets.1 meets.2
  have elsewhere : words (ts.take j) ≠ 2 := by omega
  refine ⟨by simp [elsewhere], ?_⟩
  rcases alone with before | after
  · rw [if_pos (by omega)]
    simp
  · rw [if_neg (by omega), ne_eq, Location.stack.injEq]
    omega

theorem softConvention (soft : a ∈ [Architecture.arm, .x86, .mips]) :
    a.abi.softFloat = true ∧ a.abi.coreArgs = 3 := by
  simp only [List.mem_cons, List.not_mem_nil, or_false] at soft
  rcases soft with rfl | rfl | rfl <;> decide

theorem hardConvention (hard : a ∈ [Architecture.arm64, .x86_64]) : a.abi.softFloat = false := by
  simp only [List.mem_cons, List.not_mem_nil, or_false] at hard
  rcases hard with rfl | rfl <;> decide

theorem slotsClosedForm (a : Architecture) (shorty : Shorty) (isStatic : Bool) :
    (slots a.abi shorty isStatic).map Slot.tag =
      (if isStatic then [] else [Tag.reference]) ++ shorty.params ∧
    ∀ i s, (slots a.abi shorty isStatic)[i]? = some s →
      let before := (argumentTags shorty isStatic).take i
      (a ∈ [.arm, .x86, .mips] →
        s.location =
          (if words before < 3 then .core (words before) else .stack (words before - 3)) ∧
        (s.split = true ↔ s.tag.isWide = true ∧ words before = 2) ∧
        (s.split = true → ∀ j r, (slots a.abi shorty isStatic)[j]? = some r → j ≠ i →
          r.split = false ∧ r.location ≠ .stack 0)) ∧
      (a ∈ [.arm64, .x86_64] →
        s.split = false ∧
        s.location =
          if s.tag.isFloating then
            if floats before < a.abi.floatArgs then .float (floats before) else .stack (words before)
          else if others before < a.abi.coreArgs then .core (others before) else .stack (words before)) := by
  refine ⟨by cases isStatic <;> simp [argumentTags], fun i s found => ?_⟩
  rw [slotsAt, Option.map_eq_some_iff] at found
  obtain ⟨t, at_, rfl⟩ := found
  refine ⟨fun soft => ?_, fun hard => ?_⟩
  · obtain ⟨soft, three⟩ := softConvention soft
    have slot := softSlot soft three ((argumentTags shorty isStatic).take i) t
    refine ⟨by rw [slot], by simp [slot], fun split j r other apart => ?_⟩
    rw [slotsAt, Option.map_eq_some_iff] at other
    obtain ⟨u, there, rfl⟩ := other
    exact splitElsewhere soft three at_ there apart split
  · cases floating : t.isFloating <;> simp [slotAfter, hardConvention hard, floating]

end Detour
