import Detour.Frame
import Mathlib.Tactic.Common

/-! Which registers, stack words and bytes the arguments of a call take. The three cursors give every
register and stack word to one argument at most, and in the frame of each supported convention the saved
registers lie apart; so no byte belongs to two arguments, and none to the words that the frame keeps for
itself. -/
namespace Detour

def Tag.words (t : Tag) : Nat := if t.isWide then 2 else 1

structure Abi.Regular (abi : Abi) : Prop where
  soft : abi.softFloat = true → abi.coreSize = 4
  hard : abi.softFloat = false → abi.coreSize = 8 ∧ abi.floatSize = 8

theorem Architecture.regular (a : Architecture) : a.abi.Regular := by
  cases a <;> exact ⟨by decide, by decide⟩

namespace Cursor

inductive Places (abi : Abi) (c : Cursor) : Slot → Cursor → Prop
  | word {t} (soft : abi.softFloat = true) (narrow : t.isWide = false) (room : c.core < abi.coreArgs) :
    Places abi c ⟨t, .core c.core, false⟩ ⟨c.core + 1, c.float, c.stack⟩
  | pair {t} (soft : abi.softFloat = true) (wide : t.isWide = true) (room : c.core + 1 < abi.coreArgs) :
    Places abi c ⟨t, .core c.core, false⟩ ⟨c.core + 2, c.float, c.stack⟩
  | split {t} (soft : abi.softFloat = true) (wide : t.isWide = true) (last : c.core + 1 = abi.coreArgs) :
    Places abi c ⟨t, .core c.core, true⟩ ⟨c.core + 1, c.float, c.stack + 1⟩
  | register {t} (hard : abi.softFloat = false) (room : c.core < abi.coreArgs) :
    Places abi c ⟨t, .core c.core, false⟩ ⟨c.core + 1, c.float, c.stack + t.words⟩
  | float {t} (hard : abi.softFloat = false) (room : c.float < abi.floatArgs) :
    Places abi c ⟨t, .float c.float, false⟩ ⟨c.core, c.float + 1, c.stack + t.words⟩
  | stack {t} (full : abi.softFloat = true → abi.coreArgs ≤ c.core) :
    Places abi c ⟨t, .stack c.stack, false⟩ ⟨c.core, c.float, c.stack + t.words⟩

variable {abi : Abi} {c : Cursor}

theorem oneWordPlaces {t : Tag} (narrow : t.isWide = false) :
    Places abi c (c.oneWord abi t).1 (c.oneWord abi t).2 := by
  have one : t.words = 1 := by simp [Tag.words, narrow]
  by_cases room : c.core < abi.coreArgs
  · cases soft : abi.softFloat
    · simpa [oneWord, coreLocation, coreStackWords, room, soft, one] using
        Places.register (t := t) soft room
    · simpa [oneWord, coreLocation, coreStackWords, room, soft] using
        Places.word (t := t) soft narrow room
  · simpa [oneWord, coreLocation, coreStackWords, room, one] using
      @Places.stack abi c t fun _ => Nat.le_of_not_lt room

theorem twoWordsPlaces (regular : abi.Regular) {t : Tag} (wide : t.isWide = true) :
    Places abi c (c.twoWords abi t).1 (c.twoWords abi t).2 := by
  have two : t.words = 2 := by simp [Tag.words, wide]
  by_cases room : c.core < abi.coreArgs
  · cases soft : abi.softFloat
    · have size := (regular.hard soft).1
      simpa [twoWords, coreLocation, coreStackWords, room, soft, size, two] using
        Places.register (t := t) soft room
    · have size := regular.soft soft
      by_cases last : c.core + 1 = abi.coreArgs
      · have notNext : ¬ c.core + 1 < abi.coreArgs := by omega
        simpa [twoWords, coreLocation, coreStackWords, room, soft, size, last, notNext] using
          Places.split (t := t) soft wide last
      · have next : c.core + 1 < abi.coreArgs := by omega
        have notLast : (c.core + 1 == abi.coreArgs) = false := by simpa using last
        simpa [twoWords, coreLocation, coreStackWords, room, soft, size, notLast, next] using
          Places.pair (t := t) soft wide next
  · have notNext : ¬ c.core + 1 < abi.coreArgs := by omega
    have notLast : (c.core + 1 == abi.coreArgs) = false := by
      rw [beq_eq_false_iff_ne]
      omega
    simpa [twoWords, coreLocation, coreStackWords, room, notLast, notNext, two] using
      @Places.stack abi c t fun _ => Nat.le_of_not_lt room

theorem floatPlaces (hard : abi.softFloat = false) :
    Places abi c (c.floatArgument abi).1 (c.floatArgument abi).2 := by
  by_cases room : c.float < abi.floatArgs
  · simpa [floatArgument, floatLocation, room, Tag.words, Tag.isWide] using
      Places.float (t := .float) hard room
  · simpa [floatArgument, floatLocation, room, Tag.words, Tag.isWide] using
      @Places.stack abi c .float (by simp [hard])

theorem doublePlaces (regular : abi.Regular) (hard : abi.softFloat = false) :
    Places abi c (c.doubleArgument abi).1 (c.doubleArgument abi).2 := by
  have size := (regular.hard hard).2
  by_cases room : c.float < abi.floatArgs
  · simpa [doubleArgument, floatLocation, room, size, Tag.words, Tag.isWide] using
      Places.float (t := .double) hard room
  · simpa [doubleArgument, floatLocation, room, size, Tag.words, Tag.isWide] using
      @Places.stack abi c .double (by simp [hard])

theorem placePlaces (regular : abi.Regular) (t : Tag) :
    Places abi c (c.place abi t).1 (c.place abi t).2 := by
  cases soft : abi.softFloat with
  | true =>
    cases t <;> simp only [place, soft, if_true] <;>
      first
        | exact oneWordPlaces rfl
        | exact twoWordsPlaces regular rfl
  | false =>
    cases t with
    | float => simpa [place, soft] using floatPlaces soft
    | double => simpa [place, soft] using doublePlaces regular soft
    | long => exact twoWordsPlaces regular rfl
    | _ => exact oneWordPlaces rfl

end Cursor

def Slot.cells (abi : Abi) (s : Slot) : List Location :=
  match s.location with
  | .core i =>
    if s.split then [.core i, .stack 0]
    else if s.tag.isWide ∧ abi.softFloat then [.core i, .core (i + 1)] else [.core i]
  | .float i => [.float i]
  | .stack i => if s.tag.isWide then [.stack i, .stack (i + 1)] else [.stack i]

namespace Cursor

def Claims (c : Cursor) : Location → Prop
  | .core i => i < c.core
  | .float i => i < c.float
  | .stack i => i < c.stack

def Filling (abi : Abi) (c : Cursor) : Prop :=
  abi.softFloat = true → c.core < abi.coreArgs → c.stack = 0

variable {abi : Abi} {c next : Cursor} {s : Slot}

theorem placesFilling (placed : Places abi c s next) (filling : c.Filling abi) :
    next.Filling abi := by
  intro soft room
  cases placed with
  | word | pair => exact filling soft (by simp at room; omega)
  | split soft wide last => simp at room; omega
  | register hard | float hard => simp [hard] at soft
  | stack full =>
    have := full soft
    simp at room
    omega

theorem placesGrows (placed : Places abi c s next) {cell} (claimed : c.Claims cell) :
    next.Claims cell := by
  cases placed <;> cases cell <;> simp only [Claims] at claimed ⊢ <;> omega

theorem placesFresh (placed : Places abi c s next) (filling : c.Filling abi) :
    ∀ cell ∈ s.cells abi, ¬ c.Claims cell := by
  cases placed with
  | split soft wide last =>
    have empty := filling soft (by omega)
    simp [Slot.cells, Claims, empty]
  | float => simp [Slot.cells, Claims]
  | _ => simp [Slot.cells]; split <;> simp [Claims]

theorem placesClaims (placed : Places abi c s next) : ∀ cell ∈ s.cells abi, next.Claims cell := by
  cases placed with
  | word soft narrow | pair soft wide | register hard =>
    simp_all [Slot.cells, Claims]
  | split | float => simp [Slot.cells, Claims]
  | stack => simp [Slot.cells, Tag.words]; split <;> simp [Claims]

end Cursor

/-! ## Bytes -/

namespace Abi

def coreStart (abi : Abi) (index : Nat) : Nat :=
  match abi.coreArgOffset index with
  | .ok offset => offset
  | .error _ => 0

structure Spaced (abi : Abi) : Prop where
  registers : abi.argRegisters.length = abi.coreArgs
  core : ∀ i < abi.coreArgs, abi.coreArgOffset i = .ok (abi.coreStart i)
  coreInside : ∀ i < abi.coreArgs,
    methodWordSize ≤ abi.coreStart i ∧ abi.coreStart i + abi.coreSize ≤ abi.returnOffset
  coreApart : ∀ i < abi.coreArgs, ∀ j < abi.coreArgs, i ≠ j →
    abi.coreStart i + abi.coreSize ≤ abi.coreStart j ∨
      abi.coreStart j + abi.coreSize ≤ abi.coreStart i
  coreNext : abi.softFloat = true → ∀ i < abi.coreArgs - 1,
    abi.coreStart (i + 1) = abi.coreStart i + abi.coreSize
  floatInside : ∀ i < abi.floatArgs,
    methodWordSize ≤ abi.floatArgOffset i ∧ abi.floatArgOffset i + abi.floatSize ≤ abi.returnOffset
  floatApart : ∀ i < abi.floatArgs, ∀ j < abi.floatArgs, i ≠ j →
    abi.floatArgOffset i + abi.floatSize ≤ abi.floatArgOffset j ∨
      abi.floatArgOffset j + abi.floatSize ≤ abi.floatArgOffset i
  floatBelow : ∀ i < abi.floatArgs, ∀ j < abi.coreArgs,
    abi.floatArgOffset i + abi.floatSize ≤ abi.coreStart j
  returnInside : abi.returnOffset + (if abi.pointerSize = 8 then 8 else 4) ≤ abi.frameSize
  above : abi.frameSize + methodWordSize ≤ abi.stackBase

end Abi

theorem Architecture.spaced (a : Architecture) : a.abi.Spaced := by
  cases a <;> constructor <;> decide

namespace Abi

def Has (abi : Abi) : Location → Prop
  | .core i => i < abi.coreArgs
  | .float i => i < abi.floatArgs
  | .stack _ => True

def Covers (abi : Abi) (cell : Location) (b : Nat) : Prop :=
  match cell with
  | .core i => abi.coreStart i ≤ b ∧ b < abi.coreStart i + abi.coreSize
  | .float i => abi.floatArgOffset i ≤ b ∧ b < abi.floatArgOffset i + abi.floatSize
  | .stack i => abi.stackArgOffset i ≤ b ∧ b < abi.stackArgOffset i + slotBytes

variable {abi : Abi} {x y : Location} {b : Nat}

theorem coversBounds (spaced : abi.Spaced) (has : abi.Has x) (covers : abi.Covers x b) :
    methodWordSize ≤ b ∧
      match x with
      | .stack _ => abi.stackBase ≤ b
      | _ => b < abi.returnOffset := by
  have above := spaced.above
  cases x with
  | core i =>
    have inside := spaced.coreInside i has
    simp only [Covers] at covers ⊢
    omega
  | float i =>
    have inside := spaced.floatInside i has
    simp only [Covers] at covers ⊢
    omega
  | stack i =>
    simp only [Covers, stackArgOffset] at covers ⊢
    omega

theorem returnBelowStack (spaced : abi.Spaced) : abi.returnOffset < abi.stackBase := by
  have below := spaced.returnInside
  have above := spaced.above
  split at below <;> omega

theorem coversSame (spaced : abi.Spaced) (hasX : abi.Has x) (hasY : abi.Has y)
    (coversX : abi.Covers x b) (coversY : abi.Covers y b) : x = y := by
  have boundX := (coversBounds spaced hasX coversX).2
  have boundY := (coversBounds spaced hasY coversY).2
  have order := returnBelowStack spaced
  cases x <;> cases y <;> simp only [Covers] at coversX coversY <;> simp only at boundX boundY
  case core.core i j =>
    have apart := spaced.coreApart i hasX j hasY
    rw [Location.core.injEq]
    omega
  case core.float i j =>
    have apart := spaced.floatBelow j hasY i hasX
    omega
  case float.core i j =>
    have apart := spaced.floatBelow i hasX j hasY
    omega
  case float.float i j =>
    have apart := spaced.floatApart i hasX j hasY
    rw [Location.float.injEq]
    omega
  case stack.stack i j =>
    rw [Location.stack.injEq]
    simp only [stackArgOffset, slotBytes] at coversX coversY
    omega
  all_goals omega

end Abi

def Slot.Covers (abi : Abi) (s : Slot) (b : Nat) : Prop :=
  ∃ offset, Frame.offsetOf abi s.location = .ok offset ∧
    if s.split then
      (offset ≤ b ∧ b < offset + 4) ∨ (abi.stackBase ≤ b ∧ b < abi.stackBase + 4)
    else offset ≤ b ∧ b < offset + Frame.width s

namespace Cursor

variable {abi : Abi} {c next : Cursor} {s : Slot}

theorem placesHas (placed : Places abi c s next) : ∀ cell ∈ s.cells abi, abi.Has cell := by
  cases placed with
  | word soft narrow room => simpa [Slot.cells, narrow, Abi.Has] using room
  | pair soft wide room =>
    simp only [Slot.cells, Abi.Has]
    simp [wide, soft]
    omega
  | split soft wide last =>
    simp only [Slot.cells, Abi.Has]
    simp
    omega
  | register hard room => simpa [Slot.cells, hard, Abi.Has] using room
  | float hard room => simpa [Slot.cells, Abi.Has] using room
  | stack => simp [Slot.cells]; split <;> simp [Abi.Has]

theorem widthAtMost (s : Slot) : Frame.width s ≤ 8 := by
  unfold Frame.width
  split <;> omega

theorem coreBegins {i offset : Nat} (spaced : abi.Spaced) (room : i < abi.coreArgs)
    (at_ : Frame.offsetOf abi (.core i) = .ok offset) : abi.coreStart i = offset := by
  simpa [Frame.offsetOf, spaced.core i room] using at_

theorem halves {first second b : Nat} (next : second = first + 4) (inside : first ≤ b ∧ b < first + 8) :
    (first ≤ b ∧ b < first + 4) ∨ (second ≤ b ∧ b < second + 4) := by
  omega

theorem placesCovers (regular : abi.Regular) (spaced : abi.Spaced) (placed : Places abi c s next)
    {b} (covers : s.Covers abi b) : ∃ cell ∈ s.cells abi, abi.Covers cell b := by
  obtain ⟨offset, at_, inside⟩ := covers
  cases placed with
  | word soft narrow room =>
    have size := regular.soft soft
    obtain rfl := coreBegins spaced room at_
    refine ⟨.core c.core, by simp [Slot.cells, narrow], ?_⟩
    simpa [Frame.width, narrow, Abi.Covers, size] using inside
  | pair soft wide room =>
    have size := regular.soft soft
    obtain rfl := coreBegins spaced (by omega) at_
    have after := spaced.coreNext soft c.core (by omega)
    simp only [Frame.width, wide, if_true, Bool.false_eq_true, if_false] at inside
    rcases halves (size ▸ after) inside with low | high
    · exact ⟨.core c.core, by simp [Slot.cells, wide, soft], by simpa [Abi.Covers, size] using low⟩
    · exact ⟨.core (c.core + 1), by simp [Slot.cells, wide, soft], by simpa [Abi.Covers, size] using high⟩
  | split soft wide last =>
    have size := regular.soft soft
    obtain rfl := coreBegins spaced (by omega) at_
    rcases inside with low | high
    · exact ⟨.core c.core, by simp [Slot.cells], by simpa [Abi.Covers, size] using low⟩
    · refine ⟨.stack 0, by simp [Slot.cells], ?_⟩
      simpa [Abi.Covers, Abi.stackArgOffset, Abi.slotBytes] using high
  | @register t hard room =>
    have size := (regular.hard hard).1
    obtain rfl := coreBegins spaced room at_
    have short := widthAtMost ⟨t, .core c.core, false⟩
    refine ⟨.core c.core, by simp [Slot.cells, hard], ?_⟩
    simp only [Bool.false_eq_true, if_false] at inside
    simp only [Abi.Covers]
    omega
  | @float t hard room =>
    have size := (regular.hard hard).2
    obtain rfl := Except.ok.inj at_
    have short := widthAtMost ⟨t, .float c.float, false⟩
    refine ⟨.float c.float, by simp [Slot.cells], ?_⟩
    simp only [Bool.false_eq_true, if_false] at inside
    simp only [Abi.Covers]
    omega
  | @stack t =>
    obtain rfl := Except.ok.inj at_
    cases wide : t.isWide with
    | false =>
      refine ⟨.stack c.stack, by simp [Slot.cells, wide], ?_⟩
      simpa [Frame.width, wide, Abi.Covers, Abi.slotBytes] using inside
    | true =>
      have after : abi.stackArgOffset (c.stack + 1) = abi.stackArgOffset c.stack + 4 := by
        simp only [Abi.stackArgOffset, Abi.slotBytes]
        omega
      simp only [Frame.width, wide, if_true, Bool.false_eq_true, if_false] at inside
      rcases halves after inside with low | high
      · exact ⟨.stack c.stack, by simp [Slot.cells, wide], low⟩
      · exact ⟨.stack (c.stack + 1), by simp [Slot.cells, wide], high⟩

theorem placeAllPlaces (regular : abi.Regular) {ts : List Tag} (filling : c.Filling abi)
    (mem : s ∈ c.placeAll abi ts) :
    ∃ before after : Cursor, before.Filling abi ∧ Places abi before s after ∧
      ∀ cell, c.Claims cell → before.Claims cell := by
  -- Cells once claimed stay claimed, so the cursor of a later argument claims those of the first.
  induction ts generalizing c with
  | nil => simp [placeAll] at mem
  | cons t ts ih =>
    have placed := placePlaces (c := c) regular t
    rcases List.mem_cons.mp mem with rfl | rest
    · exact ⟨c, _, filling, placed, fun _ claims => claims⟩
    · obtain ⟨before, after, full, places, later⟩ := ih (placesFilling placed filling) rest
      exact ⟨before, after, full, places, fun cell claims => later cell (placesGrows placed claims)⟩

theorem placeAllApart (regular : abi.Regular) {ts : List Tag} (filling : c.Filling abi) :
    (c.placeAll abi ts).Pairwise fun s t => ∀ cell ∈ s.cells abi, cell ∉ t.cells abi := by
  induction ts generalizing c with
  | nil => exact .nil
  | cons t ts ih =>
    have placed := placePlaces (c := c) regular t
    have full := placesFilling placed filling
    refine .cons (fun s mem cell taken again => ?_) (ih full)
    obtain ⟨before, after, filled, places, later⟩ := placeAllPlaces regular full mem
    exact placesFresh places filled cell again (later cell (placesClaims placed cell taken))

end Cursor

def Slot.Placed (abi : Abi) (s : Slot) : Prop :=
  ∃ c next : Cursor, Cursor.Places abi c s next

theorem startFilling (abi : Abi) : Cursor.start.Filling abi := fun _ _ => rfl

theorem slotsPlaced {abi : Abi} (regular : abi.Regular) {shorty isStatic} :
    ∀ s ∈ slots abi shorty isStatic, s.Placed abi := by
  intro s mem
  obtain ⟨before, after, _, places, _⟩ := Cursor.placeAllPlaces regular (startFilling abi) mem
  exact ⟨before, after, places⟩

theorem slotsApart {abi : Abi} (regular : abi.Regular) (spaced : abi.Spaced) (shorty isStatic) :
    (slots abi shorty isStatic).Pairwise fun s t => ∀ b, s.Covers abi b → ¬ t.Covers abi b := by
  refine (Cursor.placeAllApart regular (startFilling abi)).imp_of_mem ?_
  intro s t sMem tMem apart b coversS coversT
  obtain ⟨_, _, placesS⟩ := slotsPlaced regular s sMem
  obtain ⟨_, _, placesT⟩ := slotsPlaced regular t tMem
  obtain ⟨x, xMem, coversX⟩ := Cursor.placesCovers regular spaced placesS coversS
  obtain ⟨y, yMem, coversY⟩ := Cursor.placesCovers regular spaced placesT coversT
  have same := Abi.coversSame spaced (Cursor.placesHas placesS x xMem)
    (Cursor.placesHas placesT y yMem) coversX coversY
  exact apart x xMem (same ▸ yMem)

namespace Frame

variable {abi : Abi} {s : Slot} {list : List Slot} {b : Nat}

theorem stackWordsBound (mem : s ∈ list) :
    stackWords s ≤ (list.map stackWords).foldl max 0 := by
  have largest : (0 :: list.map stackWords).max? = some ((list.map stackWords).foldl max 0) :=
    List.max?_cons'
  exact (List.max?_eq_some_iff.mp largest).2 _
    (List.mem_cons_of_mem _ (List.mem_map.mpr ⟨s, mem, rfl⟩))

theorem cellsStackWords {i : Nat} (mem : .stack i ∈ s.cells abi) : i < stackWords s := by
  unfold Slot.cells at mem
  unfold stackWords
  split at mem
  next at_ =>
    rw [at_]
    split at mem
    next split => simp_all
    next => split at mem <;> simp at mem
  next at_ => simp at mem
  next j at_ =>
    rw [at_]
    split at mem
    next wide =>
      simp at mem
      simp [wide]
      omega
    next narrow =>
      simp at mem
      simp [narrow]
      omega

theorem coversInside (regular : abi.Regular) (spaced : abi.Spaced) (placed : s.Placed abi)
    (mem : s ∈ list) (covers : s.Covers abi b) :
    Abi.methodWordSize ≤ b ∧ b < sizeFor abi list ∧ (b < abi.returnOffset ∨ abi.stackBase ≤ b) := by
  obtain ⟨c, next, places⟩ := placed
  obtain ⟨cell, cellMem, inside⟩ := Cursor.placesCovers regular spaced places covers
  have bounds := Abi.coversBounds spaced (Cursor.placesHas places cell cellMem) inside
  have words := stackWordsBound mem
  have below := spaced.returnInside
  unfold sizeFor
  cases cell with
  | core i => simp only at bounds; omega
  | float i => simp only at bounds; omega
  | stack i =>
    have used := cellsStackWords cellMem
    simp only [Abi.Covers, Abi.stackArgOffset, Abi.slotBytes] at bounds inside ⊢
    omega

end Frame
end Detour
