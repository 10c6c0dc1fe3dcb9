/-! Reading byte strings as UTF-8. `decode?` accepts exactly well-formed text; `decodeLossy` puts one
replacement character for each maximal ill-formed part. -/
namespace Detour.Text.Utf8

structure Sequence where
  first : UInt8 × UInt8
  further : Nat
  deriving DecidableEq, Repr

def sequenceOf? (b : UInt8) : Option Sequence :=
  if 0xC2 ≤ b && b ≤ 0xDF then some ⟨(0x80, 0xBF), 0⟩
  else if b == 0xE0 then some ⟨(0xA0, 0xBF), 1⟩
  else if b == 0xED then some ⟨(0x80, 0x9F), 1⟩
  else if 0xE1 ≤ b && b ≤ 0xEF then some ⟨(0x80, 0xBF), 1⟩
  else if b == 0xF0 then some ⟨(0x90, 0xBF), 2⟩
  else if 0xF1 ≤ b && b ≤ 0xF3 then some ⟨(0x80, 0xBF), 2⟩
  else if b == 0xF4 then some ⟨(0x80, 0x8F), 2⟩
  else none

def inRange (r : UInt8 × UInt8) (b : UInt8) : Bool := r.1 ≤ b && b ≤ r.2

def continuations : Nat → List UInt8 → Nat
  | 0, _ => 0
  | _, [] => 0
  | n + 1, b :: bs => if inRange (0x80, 0xBF) b then continuations n bs + 1 else 0

def codePoint (lead : UInt8) (tail : List UInt8) : Nat :=
  let bits := match tail.length with
    | 1 => lead.toNat % 32
    | 2 => lead.toNat % 16
    | _ => lead.toNat % 8
  tail.foldl (fun n b => 64 * n + b.toNat % 64) bits

def step (b : UInt8) (rest : List UInt8) : Nat × Option Char :=
  if b < 0x80 then (0, some (Char.ofNat b.toNat))
  else match sequenceOf? b, rest with
    | some s, c :: more =>
      if inRange s.first c then
        let taken := continuations s.further more
        (taken + 1,
          if taken == s.further then some (Char.ofNat (codePoint b (c :: more.take taken))) else none)
      else (0, none)
    | _, _ => (0, none)

def scan : List UInt8 → List (Option Char)
  | [] => []
  | b :: rest => (step b rest).2 :: scan (rest.drop (step b rest).1)
termination_by bytes => bytes.length
decreasing_by simp only [List.length_drop, List.length_cons]; omega

def decode? (bytes : List UInt8) : Option String :=
  if (scan bytes).all Option.isSome then some (String.ofList ((scan bytes).filterMap id)) else none

def decodeLossy (bytes : List UInt8) : String :=
  String.ofList ((scan bytes).map (·.getD '\uFFFD'))

theorem decodeLossyOfDecode {bytes s} (h : decode? bytes = some s) : decodeLossy bytes = s := by
  unfold decode? at h
  split at h
  next all =>
    cases Option.some.inj h
    unfold decodeLossy
    congr 1
    generalize scan bytes = cs at all
    induction cs with
    | nil => rfl
    | cons c cs ih =>
      simp only [List.all_cons, Bool.and_eq_true] at all
      cases c with
      | none => simp at all
      | some c => simp [ih all.2]
  next => contradiction

end Detour.Text.Utf8
