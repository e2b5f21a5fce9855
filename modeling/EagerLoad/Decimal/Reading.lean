import EagerLoad.Decimal.Binary64

/-! # Reading decimals

A decimal is a natural significand and a power of ten. It is read in two roundings: the significand
first, then its product with, or quotient by, the power of ten. Up to fifteen digits and
twenty-two places this is the nearest number. Beyond ten to the 308 the reading is refused, and
below it the quotient is taken in steps of 308 places. -/
namespace EagerLoad.Decimal

/-- The largest power of ten that is a finite number. -/
def largestPower : Nat := 308

def powerOfTen (n : Nat) : Binary64 := Binary64.ofNat (Nat.pow 10 n)

/-- Divides by ten to the 308 so many times, or until nothing is left. -/
def reduce : Nat → Binary64 → Binary64
  | 0, x => x
  | n + 1, x => if x.isZero then x else reduce n (x.divMagnitude (powerOfTen largestPower))

/-- The number `significand × 10 ^ exponent`, unless it is too large. -/
def read? (significand : Nat) (exponent : Int) : Option Binary64 :=
  let x := Binary64.ofNat significand
  if 0 ≤ exponent then
    if x.isZero then some x
    else if largestPower < exponent.toNat then none
    else
      let y := x.mulMagnitude (powerOfTen exponent.toNat)
      if y.isFinite then some y else none
  else
    let places := exponent.natAbs
    let times := (places - 1) / largestPower
    let y := reduce times x
    if y.isZero then some y
    else some (y.divMagnitude (powerOfTen (places - times * largestPower)))

end EagerLoad.Decimal
