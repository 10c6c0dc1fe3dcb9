/-! Conversions into the binary32 and binary64 interchange formats: an integer rounds to the nearest
value, a tie to the even significand; binary32 embeds into binary64 exactly, except that a signalling
NaN becomes quiet. Results are bit patterns. -/
namespace Detour.Rounding

structure Format where
  precision : Nat
  bias : Nat
  width : Nat
  deriving DecidableEq, Repr

def binary32 : Format := ⟨24, 127, 32⟩

def binary64 : Format := ⟨53, 1023, 64⟩

def divNearestEven (n d : Nat) : Nat :=
  let q := n / d
  let r := n % d
  if d < 2 * r ∨ (d = 2 * r ∧ q % 2 = 1) then q + 1 else q

def significand (f : Format) (n : Nat) : Nat :=
  let top := f.precision - 1
  if n.log2 ≤ top then n <<< (top - n.log2) else divNearestEven n (1 <<< (n.log2 - top))

/-- The pattern of a positive integer below the overflow threshold. A significand rounded up to the
next power of two carries into the exponent. -/
def ofPositive (f : Format) (n : Nat) : Nat :=
  let top := f.precision - 1
  ((n.log2 + f.bias) <<< top) + significand f n - (1 <<< top)

def ofInt (f : Format) (i : Int) : Nat :=
  if i = 0 then 0
  else ofPositive f i.natAbs + if i < 0 then 1 <<< (f.width - 1) else 0

def extend (bits : Nat) : Nat :=
  let sign := ((bits >>> 31) % 2) <<< 63
  let exponent := (bits >>> 23) % 256
  let fraction := bits % 0x800000
  if exponent = 255 then
    if fraction = 0 then sign + (2047 <<< 52)
    else sign + (2047 <<< 52) + (1 <<< 51) + ((fraction % 0x400000) <<< 29)
  else if exponent = 0 then
    if fraction = 0 then sign
    else sign + ((fraction.log2 + 1023 - 149) <<< 52) + ((fraction <<< (52 - fraction.log2)) - (1 <<< 52))
  else sign + ((exponent + 1023 - 127) <<< 52) + (fraction <<< 29)

def isNan (f : Format) (bits : Nat) : Bool :=
  let top := f.precision - 1
  let ones := (1 <<< (f.width - 1 - top)) - 1
  (bits >>> top) % (ones + 1) == ones && bits % (1 <<< top) != 0

def isZero (f : Format) (bits : Nat) : Bool := bits % (1 <<< (f.width - 1)) == 0

end Detour.Rounding
