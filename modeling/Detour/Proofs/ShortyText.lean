import Detour.Vm.Method
import Mathlib.Data.List.Forall2

/-! The texts that spell a shorty, and how a descriptor's bytes are read as one of them. A text is read exactly if
it is written in the letters of the kinds; every letter takes one byte, and no longer or ill-formed sequence of
bytes comes out as a letter. -/
namespace Detour

inductive Letter : Char → Tag → Prop
  | object : Letter 'L' .reference
  | array : Letter '[' .reference
  | boolean : Letter 'Z' .boolean
  | byte : Letter 'B' .byte
  | char : Letter 'C' .char
  | short : Letter 'S' .short
  | int : Letter 'I' .int
  | long : Letter 'J' .long
  | float : Letter 'F' .float
  | double : Letter 'D' .double
  | void : Letter 'V' .void

namespace Shorty

def letters : List Char := ['L', '[', 'Z', 'B', 'C', 'S', 'I', 'J', 'F', 'D', 'V']

inductive Spells : List Char → Shorty → Prop
  | text {c : Char} {cs : List Char} {result : Tag} {params : List Tag} (first : Letter c result)
    (others : List.Forall₂ (fun x t => Letter x t ∧ t ≠ .void) cs params) : Spells (c :: cs) ⟨result, params⟩

def shown (c : Char) : Char := if c = '[' then 'L' else c

variable {c : Char} {cs : List Char} {t : Tag} {ts : List Tag} {r : Shorty} {s : String}

theorem letterIff : Tag.ofChar? c = some t ↔ Letter c t := by
  constructor
  · intro read
    unfold Tag.ofChar? at read
    split at read <;> cases read <;> constructor
  · intro letter
    cases letter <;> rfl

theorem letterShown (letter : Letter c t) : t.toChar = shown c := by cases letter <;> rfl

theorem lettersIff : c ∈ letters ↔ ∃ t, Letter c t := by
  constructor
  · intro mem
    simp only [letters, List.mem_cons, List.not_mem_nil, or_false] at mem
    rcases mem with rfl | rfl | rfl | rfl | rfl | rfl | rfl | rfl | rfl | rfl | rfl <;> exact ⟨_, by constructor⟩
  · rintro ⟨t, letter⟩
    cases letter <;> decide

theorem paramLetters : c ∈ letters ∧ c ≠ 'V' ↔ ∃ t, Letter c t ∧ t ≠ .void := by
  rw [lettersIff]
  constructor
  · rintro ⟨⟨t, letter⟩, other⟩
    exact ⟨t, letter, by rintro rfl; cases letter; exact other rfl⟩
  · rintro ⟨t, letter, other⟩
    exact ⟨⟨t, letter⟩, by rintro rfl; cases letter; exact other rfl⟩

theorem paramIff : param? c = some t ↔ Letter c t ∧ t ≠ .void := by
  simp [param?, Option.filter_eq_some_iff, letterIff]

theorem paramsIff : params? cs = some ts ↔ List.Forall₂ (fun x t => Letter x t ∧ t ≠ .void) cs ts := by
  induction cs generalizing ts with
  | nil => simp [params?, eq_comm]
  | cons c cs ih =>
    simp only [params?, Option.bind_eq_bind, Option.bind_eq_some_iff, Option.some.injEq, paramIff, ih,
      List.forall₂_cons_left_iff]
    constructor
    · rintro ⟨t, letter, ts, others, rfl⟩
      exact ⟨t, ts, letter, others, rfl⟩
    · rintro ⟨t, ts, letter, others, rfl⟩
      exact ⟨t, letter, ts, others, rfl⟩

theorem parseIff : parse? s = some r ↔ Spells s.toList r := by
  unfold parse?
  constructor
  · intro read
    cases chars : s.toList with
    | nil => simp [chars, ofChars?] at read
    | cons c cs =>
      simp only [chars, ofChars?, Option.bind_eq_bind, Option.bind_eq_some_iff, Option.some.injEq] at read
      obtain ⟨result, first, params, others, rfl⟩ := read
      exact .text (letterIff.mp first) (paramsIff.mp others)
  · intro spells
    generalize s.toList = chars at spells
    cases spells with
    | text first others => simp [ofChars?, letterIff.mpr first, paramsIff.mpr others]

theorem spelled (first : c ∈ letters) (others : ∀ x ∈ cs, x ∈ letters ∧ x ≠ 'V') : ∃ r, Spells (c :: cs) r := by
  obtain ⟨result, letter⟩ := lettersIff.mp first
  have params : ∃ ts, List.Forall₂ (fun x t => Letter x t ∧ t ≠ .void) cs ts := by
    clear first letter
    induction cs with
    | nil => exact ⟨[], .nil⟩
    | cons x xs ih =>
      obtain ⟨t, param⟩ := paramLetters.mp (others x (.head xs))
      obtain ⟨ts, rest⟩ := ih fun y mem => others y (.tail x mem)
      exact ⟨t :: ts, .cons param rest⟩
  obtain ⟨ts, rest⟩ := params
  exact ⟨_, .text letter rest⟩

namespace Spells

theorem lettered (spells : Spells cs r) :
    ∃ c rest, cs = c :: rest ∧ c ∈ letters ∧ ∀ x ∈ rest, x ∈ letters ∧ x ≠ 'V' := by
  cases spells with
  | text first others =>
    refine ⟨_, _, rfl, lettersIff.mpr ⟨_, first⟩, fun x mem => ?_⟩
    obtain ⟨i, below, rfl⟩ := List.getElem_of_mem mem
    exact paramLetters.mpr ⟨_, others.get below (others.length_eq ▸ below)⟩

theorem letter (spells : Spells cs r) (mem : c ∈ cs) : c ∈ letters := by
  obtain ⟨x, rest, rfl, first, others⟩ := spells.lettered
  rcases List.mem_cons.mp mem with rfl | later
  · exact first
  · exact (others c later).1

theorem chars (spells : Spells cs r) : r.chars = cs.map shown := by
  cases spells with
  | @text c cs result params first others =>
    have each : params.map Tag.toChar = cs.map shown := by
      induction others with
      | nil => rfl
      | cons param _ ih => rw [List.map_cons, List.map_cons, letterShown param.1, ih]
    rw [Shorty.chars, letterShown first, each, List.map_cons]

theorem ofShown (spells : Spells cs r) : Spells r.chars r := by
  cases spells with
  | @text c cs result params first others =>
    refine .text (letterIff.mp (Tag.ofCharToChar result)) ?_
    induction others with
    | nil => exact .nil
    | cons param _ ih => exact .cons ⟨letterIff.mp (Tag.ofCharToChar _), param.2⟩ ih

end Spells

end Shorty

namespace Text.Utf8

variable {b : UInt8} {rest bytes : List UInt8} {c : Char} {cs : List Char}

def Plain (c : Char) : Prop := 0 < c.toNat ∧ c.toNat < 0x80

theorem continuationsBound (n : Nat) (bytes : List UInt8) :
    continuations n bytes ≤ n ∧ continuations n bytes ≤ bytes.length := by
  fun_induction continuations n bytes with
  | case1 | case2 | case4 => simp
  | case3 n b bs _ ih => exact ⟨Nat.succ_le_succ ih.1, Nat.succ_le_succ ih.2⟩

theorem sequenceBounds {s : Sequence} {x : UInt8} (leads : sequenceOf? b = some s)
    (follows : inRange s.first x = true) :
    s.further = 0 ∧ 0xC2 ≤ b.toNat ∧ b.toNat ≤ 0xDF ∨
      s.further = 1 ∧ (b.toNat = 0xE0 ∧ 0xA0 ≤ x.toNat ∧ x.toNat ≤ 0xBF ∨ 0xE1 ≤ b.toNat ∧ b.toNat ≤ 0xEF) ∨
      s.further = 2 ∧ (b.toNat = 0xF0 ∧ 0x90 ≤ x.toNat ∧ x.toNat ≤ 0xBF ∨ 0xF1 ≤ b.toNat ∧ b.toNat ≤ 0xF4) := by
  unfold sequenceOf? at leads
  simp only [Bool.and_eq_true, decide_eq_true_eq, beq_iff_eq, UInt8.le_iff_toNat_le, ← UInt8.toNat_inj,
    UInt8.reduceToNat] at leads
  split at leads
  next two => cases leads; exact .inl ⟨rfl, two⟩
  split at leads
  next least =>
    cases leads
    simp only [inRange, Bool.and_eq_true, decide_eq_true_eq, UInt8.le_iff_toNat_le, UInt8.reduceToNat] at follows
    exact .inr (.inl ⟨rfl, .inl ⟨least, follows⟩⟩)
  split at leads
  next => cases leads; exact .inr (.inl ⟨rfl, .inr (by omega)⟩)
  split at leads
  next three => cases leads; exact .inr (.inl ⟨rfl, .inr three⟩)
  split at leads
  next least =>
    cases leads
    simp only [inRange, Bool.and_eq_true, decide_eq_true_eq, UInt8.le_iff_toNat_le, UInt8.reduceToNat] at follows
    exact .inr (.inr ⟨rfl, .inl ⟨least, follows⟩⟩)
  split at leads
  next four => cases leads; exact .inr (.inr ⟨rfl, .inr (by omega)⟩)
  split at leads
  next => cases leads; exact .inr (.inr ⟨rfl, .inr (by omega)⟩)
  next => contradiction

theorem codePointHigh {s : Sequence} {x : UInt8} {more : List UInt8} (leads : sequenceOf? b = some s)
    (follows : inRange s.first x = true) (length : more.length = s.further) : 0x80 ≤ codePoint b (x :: more) := by
  rcases sequenceBounds leads follows with ⟨two, low, high⟩ | ⟨three, bounds⟩ | ⟨four, bounds⟩
  · obtain rfl := List.length_eq_zero_iff.mp (length.trans two)
    simp only [codePoint, List.length_cons, List.length_nil, List.foldl_cons, List.foldl_nil]
    omega
  · obtain ⟨y, rfl⟩ := List.length_eq_one_iff.mp (length.trans three)
    simp only [codePoint, List.length_cons, List.length_nil, List.foldl_cons, List.foldl_nil]
    omega
  · obtain ⟨y, z, rfl⟩ := List.length_eq_two.mp (length.trans four)
    simp only [codePoint, List.length_cons, List.length_nil, List.foldl_cons, List.foldl_nil]
    omega

theorem ofNatToNat (n : Nat) : (Char.ofNat n).toNat = n ∨ (Char.ofNat n).toNat = 0 := by
  unfold Char.ofNat
  by_cases valid : n.isValidChar
  · rw [dif_pos valid]
    exact .inl rfl
  · rw [dif_neg valid]
    exact .inr rfl

theorem stepPlain (spells : (step b rest).2 = some c) (plain : Plain c) :
    (step b rest).1 = 0 ∧ b = c.toNat.toUInt8 := by
  unfold step at spells ⊢
  split at spells
  next low =>
    rw [if_pos low]
    refine ⟨rfl, ?_⟩
    obtain rfl := Option.some.inj spells
    rcases ofNatToNat b.toNat with same | null
    · simp [same]
    · exact absurd null (Nat.pos_iff_ne_zero.mp plain.1)
  next =>
    split at spells
    next s x more leads =>
      split at spells
      next follows =>
        simp only [Option.ite_none_right_eq_some, beq_iff_eq, Option.some.injEq] at spells
        obtain ⟨whole, rfl⟩ := spells
        have length : (more.take (continuations s.further more)).length = s.further := by
          rw [List.length_take, Nat.min_eq_left (continuationsBound _ _).2, whole]
        have high := codePointHigh leads follows length
        obtain ⟨positive, low⟩ := plain
        rcases ofNatToNat (codePoint b (x :: more.take (continuations s.further more))) with same | null <;> omega
      next => contradiction
    next => contradiction

theorem stepByte (plain : Plain c) : step c.toNat.toUInt8 rest = (0, some c) := by
  have byte : c.toNat.toUInt8.toNat = c.toNat := UInt8.toNat_ofNat_of_lt' (Nat.lt_trans plain.2 (by decide))
  have low : c.toNat.toUInt8 < 0x80 := by
    rw [UInt8.lt_iff_toNat_lt, byte]
    exact plain.2
  unfold step
  rw [if_pos low, byte, Char.ofNat_toNat]

theorem scanPlain (plain : ∀ c ∈ cs, Plain c) :
    scan bytes = cs.map some ↔ bytes = cs.map (·.toNat.toUInt8) := by
  induction cs generalizing bytes with
  | nil => cases bytes <;> simp [scan]
  | cons c cs ih =>
    have here := plain c (.head cs)
    have later := fun x mem => plain x (.tail c mem)
    cases bytes with
    | nil => simp [scan]
    | cons b rest =>
      rw [scan, List.map_cons, List.map_cons, List.cons.injEq, List.cons.injEq]
      constructor
      · rintro ⟨head, tail⟩
        obtain ⟨one, byte⟩ := stepPlain head here
        rw [one, List.drop_zero] at tail
        exact ⟨byte, (ih later).mp tail⟩
      · rintro ⟨rfl, rfl⟩
        rw [stepByte here, List.drop_zero]
        exact ⟨rfl, (ih later).mpr rfl⟩

theorem encodePlain (plain : ∀ c ∈ cs, Plain c) :
    (String.ofList cs).toUTF8.data.toList = cs.map (·.toNat.toUInt8) := by
  rw [String.toUTF8_eq_toByteArray, String.toByteArray_ofList]
  induction cs with
  | nil => rfl
  | cons c cs ih =>
    have low : c.val.toNat ≤ 127 := Nat.le_of_lt_succ (plain c (.head cs)).2
    have own : String.utf8EncodeChar c = [c.toNat.toUInt8] := by
      unfold String.utf8EncodeChar
      rw [if_pos low]
      rfl
    rw [List.map_cons, ← ih fun x mem => plain x (.tail c mem), List.utf8Encode_cons]
    simp [List.utf8Encode_singleton, own]

theorem allPresent {read : List (Option Char)} (all : read.all Option.isSome = true) :
    read = (read.filterMap id).map some := by
  induction read with
  | nil => rfl
  | cons c read ih =>
    obtain ⟨present, rest⟩ := Bool.and_eq_true_iff.mp ((List.all_cons).symm.trans all)
    obtain ⟨c, rfl⟩ := Option.isSome_iff_exists.mp present
    exact congrArg (some c :: ·) (ih rest)

theorem decodePlain {s : String} (plain : ∀ c ∈ s.toList, Plain c) :
    decode? bytes = some s ↔ bytes = s.toUTF8.data.toList := by
  have encoded := encodePlain plain
  rw [String.ofList_toList] at encoded
  rw [encoded, ← scanPlain plain]
  unfold decode?
  constructor
  · intro decoded
    split at decoded
    next all =>
      obtain rfl := Option.some.inj decoded
      rw [String.toList_ofList]
      exact allPresent all
    next => contradiction
  · intro scanned
    rw [scanned]
    simp

end Text.Utf8

theorem Shorty.letterPlain {c : Char} (letter : c ∈ letters) : Text.Utf8.Plain c := by
  obtain ⟨t, letter⟩ := lettersIff.mp letter
  cases letter <;> exact ⟨by decide, by decide⟩

namespace Descriptor

variable {d : Descriptor} {r : Shorty}

theorem shortyIff :
    d.shorty = .ok r ↔ ∃ s, Text.Utf8.decode? d.shortyContent = some s ∧ Shorty.parse? s = some r := by
  unfold shorty
  cases Text.Utf8.decode? d.shortyContent with
  | none => simp
  | some s => cases read : Shorty.parse? s <;> simp [read]

theorem shortyRefused (unread : ∀ r, d.shorty ≠ .ok r) :
    d.shorty = .error (.invalidShorty (Text.Utf8.decodeLossy d.shortyContent)) := by
  unfold shorty at unread ⊢
  cases decoded : Text.Utf8.decode? d.shortyContent with
  | none => rfl
  | some s =>
    cases read : Shorty.parse? s with
    | none => simp [read, Text.Utf8.decodeLossyOfDecode decoded]
    | some r => exact absurd (by simp [decoded, read]) (unread r)

end Descriptor

/-- A text is read as a shorty just if it is made of the letters, a void one only at its head. What it is read as
has the kinds of its letters, shows them with the letter of objects for that of arrays, and is read back from what it
shows. A descriptor is read just if its bytes encode such a text, and as the same shorty; any other is refused as an
invalid one. -/
theorem shortiesSpelled (s : String) (d : Descriptor) :
    ((∃ r, Shorty.parse? s = some r) ↔ ∃ c cs, s.toList = c :: cs ∧ c ∈ Shorty.letters ∧
        ∀ x ∈ cs, x ∈ Shorty.letters ∧ x ≠ 'V') ∧
      (∀ r, Shorty.parse? s = some r → Shorty.Spells s.toList r ∧
        r.display = String.ofList (s.toList.map Shorty.shown) ∧ Shorty.parse? r.display = some r) ∧
      (∀ r, d.shorty = .ok r ↔ ∃ text : String, d.shortyContent = text.toUTF8.data.toList ∧
        Shorty.parse? text = some r) ∧
      ((∀ r, d.shorty ≠ .ok r) → d.shorty = .error (.invalidShorty (Text.Utf8.decodeLossy d.shortyContent))) := by
  refine ⟨⟨?_, ?_⟩, fun r read => ?_, fun r => ?_, Descriptor.shortyRefused⟩
  · rintro ⟨r, read⟩
    exact (Shorty.parseIff.mp read).lettered
  · rintro ⟨c, cs, chars, first, others⟩
    obtain ⟨r, spells⟩ := Shorty.spelled first others
    exact ⟨r, Shorty.parseIff.mpr (chars ▸ spells)⟩
  · have spells := Shorty.parseIff.mp read
    refine ⟨spells, congrArg String.ofList spells.chars, Shorty.parseIff.mpr ?_⟩
    rw [Shorty.display, String.toList_ofList]
    exact spells.ofShown
  · rw [Descriptor.shortyIff]
    refine exists_congr fun text => and_congr_left fun read => Text.Utf8.decodePlain fun c mem => ?_
    exact Shorty.letterPlain ((Shorty.parseIff.mp read).letter mem)

theorem arrayParameterSpelled :
    Shorty.parse? "V[I" = some ⟨.void, [.reference, .int]⟩ ∧
      Shorty.display ⟨.void, [.reference, .int]⟩ = String.ofList ['V', 'L', 'I'] ∧
      Shorty.parse? (Shorty.display ⟨.void, [.reference, .int]⟩) = some ⟨.void, [.reference, .int]⟩ ∧
      (Method.descriptorOf Layout.compiled 1 .object 0 [0x56, 0x5B, 0x49]).shorty =
        .ok ⟨.void, [.reference, .int]⟩ := by
  have read : Shorty.parse? "V[I" = some ⟨.void, [.reference, .int]⟩ := by decide
  obtain ⟨_, reads, descriptor, _⟩ :=
    shortiesSpelled "V[I" (Method.descriptorOf Layout.compiled 1 .object 0 [0x56, 0x5B, 0x49])
  obtain ⟨_, shows_, again⟩ := reads _ read
  exact ⟨read, shows_, again, (descriptor _).mpr ⟨"V[I", by decide, read⟩⟩

end Detour
