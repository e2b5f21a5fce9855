/-! # Binary floating point numbers

A number is held by its 64 bits, so that equality is decidable and the two zeros differ.
Every operation computes the exact quotient of two naturals and rounds it once, to the nearest
number and on a tie to the even one. -/
namespace EagerLoad

/-- A 64-bit binary floating point number, given by its bits. -/
structure Binary64 where
  bits : UInt64
deriving DecidableEq, Repr, Inhabited

namespace Binary64

def isNegative (x : Binary64) : Bool := x.bits >>> 63 == 1

def exponentField (x : Binary64) : Nat := (x.bits >>> 52 &&& 0x7ff).toNat

/-- The fifty-two bits below the leading bit of the significand. -/
def fraction (x : Binary64) : Nat := (x.bits &&& 0xfffffffffffff).toNat

def isFinite (x : Binary64) : Bool := x.exponentField != 2047

def isZero (x : Binary64) : Bool := x.exponentField == 0 && x.fraction == 0

def leadingBit : Nat := 0x10000000000000

/-- The magnitude of a finite number is its significand times two to its exponent. -/
def significand (x : Binary64) : Nat :=
  if x.exponentField = 0 then x.fraction else x.fraction + leadingBit

def exponent (x : Binary64) : Int := (max x.exponentField 1 : Int) - 1075

def withSign (negative : Bool) (x : Binary64) : Binary64 :=
  if negative then ⟨x.bits ||| 0x8000000000000000⟩ else x

def neg (x : Binary64) : Binary64 := ⟨x.bits ^^^ 0x8000000000000000⟩

def zero : Binary64 := ⟨0⟩
def infinity : Binary64 := ⟨0x7ff0000000000000⟩

/-- The quotient rounded to the nearest natural, a tie to the even one. -/
def roundQuotient (num den : Nat) : Nat :=
  let whole := num / den
  let rest := 2 * (num % den)
  if rest < den then whole
  else if den < rest then whole + 1
  else whole + whole % 2

/-- The quotient `num / den` counted in units of two to the `unit`. -/
def scaled (num den : Nat) (unit : Int) : Nat × Nat :=
  if unit < 0 then (num * Nat.pow 2 (-unit).toNat, den) else (num, den * Nat.pow 2 unit.toNat)

/-- The unit in the last place of the number nearest to `num / den`: the significand then has at
most fifty-three bits, and the unit is never finer than the smallest positive number. -/
def lastPlace (num den : Nat) : Int :=
  let coarse := max ((num.log2 : Int) - (den.log2 : Int) - 53) (-1074)
  let (n, d) := scaled num den coarse
  if n / d < 2 * leadingBit then coarse else coarse + 1

/-- The bits of a significand of at most fifty-three bits, or of the next power of two, which
carries into the exponent. -/
def pack (significand : Nat) (unit : Int) : Binary64 :=
  if significand < leadingBit then ⟨significand.toUInt64⟩
  else
    let field := (unit + 1075).toNat
    if 2047 ≤ field then infinity
    else ⟨(field * leadingBit + (significand - leadingBit)).toUInt64⟩

/-- The number nearest to `num / den`; infinite beyond the largest finite number. -/
def ofRatio (num den : Nat) : Binary64 :=
  if num = 0 then zero
  else
    let unit := lastPlace num den
    let (n, d) := scaled num den unit
    pack (roundQuotient n d) unit

def ofNat (n : Nat) : Binary64 := ofRatio n 1

def ofInt (i : Int) : Binary64 := withSign (i < 0) (ofNat i.natAbs)

def ratio (x : Binary64) : Nat × Nat := scaled x.significand 1 (-x.exponent)

def addMagnitude (x y : Binary64) : Binary64 :=
  let (a, b) := x.ratio
  let (c, d) := y.ratio
  ofRatio (a * d + c * b) (b * d)

def mulMagnitude (x y : Binary64) : Binary64 :=
  let (a, b) := x.ratio
  let (c, d) := y.ratio
  ofRatio (a * c) (b * d)

/-- The quotient of two magnitudes; the second is not zero. -/
def divMagnitude (x y : Binary64) : Binary64 :=
  let (a, b) := x.ratio
  let (c, d) := y.ratio
  ofRatio (a * d) (b * c)

def maxMagnitude (x y : Binary64) : Binary64 := if x.bits < y.bits then y else x

end Binary64
end EagerLoad
