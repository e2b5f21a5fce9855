import EagerLoad.Decimal.Binary64

/-! # Shortest decimals

The decimal written for a finite number is the one with the fewest digits among those nearer to
it than to any other number, and of these the nearest. A style decides which of two equally near
decimals is taken and where the point goes. -/
namespace EagerLoad.Decimal

/-- Which of two equally near decimals is taken: the one with an even last digit, or the larger. -/
inductive Tie where
  | toEven
  | upward
deriving DecidableEq, Repr

/-- The one of `below` and `below + 1` that is taken when the value lies halfway between them. -/
def Tie.pick (t : Tie) (below : Nat) : Nat :=
  match t with
  | toEven => below + below % 2
  | upward => below + 1

/-- The digits of a decimal, the first of which stands at ten to the `exponent`. -/
structure Digits where
  digits : List Char
  exponent : Int
deriving DecidableEq, Repr

/-- A magnitude and the two ends of the interval that rounds to it, counted in quarters of the
last place. The ends belong to it when the significand is even. -/
structure Interval where
  low : Nat
  value : Nat
  high : Nat
  closed : Bool
  unit : Int

def Interval.ofBinary (x : Binary64) : Interval :=
  let m := x.significand
  let power := x.fraction == 0 && 1 < x.exponentField
  { low := if power then 4 * m - 1 else 4 * m - 2
    value := 4 * m
    high := 4 * m + 2
    closed := m % 2 == 0
    unit := x.exponent - 2 }

/-- Counts `n` units in steps of ten to the `place`, as a quotient. -/
def Interval.steps (i : Interval) (n : Nat) (place : Int) : Nat × Nat :=
  let (a, b) := Binary64.scaled n 1 (-i.unit)
  if place < 0 then (a * Nat.pow 10 (-place).toNat, b) else (a, b * Nat.pow 10 place.toNat)

def Interval.holds (i : Interval) (count : Nat) (place : Int) : Bool :=
  let (a, b) := i.steps i.low place
  let (c, d) := i.steps i.high place
  if i.closed then a ≤ count * b && count * d ≤ c else a < count * b && count * d < c

/-- The multiple of ten to the `place` in the interval that is nearest to the value. -/
def Interval.nearest? (i : Interval) (t : Tie) (place : Int) : Option Nat :=
  let (a, b) := i.steps i.value place
  let below := a / b
  let rest := 2 * (a % b)
  match i.holds below place, i.holds (below + 1) place with
  | true, true =>
    some (if rest < b then below else if b < rest then below + 1 else t.pick below)
  | true, false => some below
  | false, true => some (below + 1)
  | false, false => none

/-- Looks for a decimal on ever finer grids. -/
def Interval.search (i : Interval) (t : Tie) : Nat → Int → Option (Nat × Int)
  | 0, _ => none
  | fuel + 1, place =>
    match i.nearest? t place with
    | some count => some (count, place)
    | none => i.search t fuel (place - 1)

def leadingPlace (num den : Nat) : Int :=
  if den ≤ num then ((Nat.toDigits 10 (num / den)).length : Int) - 1
  else
    let digits := (Nat.toDigits 10 (den / num)).length
    if den ≤ num * Nat.pow 10 (digits - 1) then -((digits : Int) - 1) else -(digits : Int)

def dropZeros (cs : List Char) : List Char := (cs.reverse.dropWhile (· == '0')).reverse

def shortest (t : Tie) (x : Binary64) : Digits :=
  if x.isZero then ⟨['0'], 0⟩
  else
    let i := Interval.ofBinary x
    let (a, b) := x.ratio
    match i.search t 18 (leadingPlace a b) with
    | none => ⟨['0'], 0⟩
    | some (count, place) =>
      let written := Nat.toDigits 10 count
      ⟨dropZeros written, place + written.length - 1⟩

/-- How a number is written: the exponents with a plain point, if they are limited, whether a whole
number keeps a point, and which of two equally near decimals is taken. -/
structure Style where
  positional : Option (Int × Int)
  pointed : Bool
  tie : Tie

def Digits.positional (d : Digits) (pointed : Bool) : List Char :=
  if d.exponent < 0 then
    '0' :: '.' :: (List.replicate (-d.exponent - 1).toNat '0' ++ d.digits)
  else
    let whole := d.exponent.toNat + 1
    if d.digits.length ≤ whole then
      d.digits ++ List.replicate (whole - d.digits.length) '0' ++
        (if pointed then ['.', '0'] else [])
    else d.digits.take whole ++ '.' :: d.digits.drop whole

def Digits.scientific (d : Digits) : List Char :=
  let lead := match d.digits with
    | [] => ['0']
    | [c] => [c]
    | c :: rest => c :: '.' :: rest
  let sign := if d.exponent < 0 then '-' else '+'
  lead ++ 'e' :: sign :: Nat.toDigits 10 d.exponent.natAbs

def Digits.layout (d : Digits) (style : Style) : List Char :=
  match style.positional with
  | some (low, high) =>
    if low ≤ d.exponent ∧ d.exponent ≤ high then d.positional style.pointed else d.scientific
  | none => d.positional style.pointed

def text (style : Style) (x : Binary64) : String :=
  let body := (shortest style.tie x).layout style
  String.ofList (if x.isNegative then '-' :: body else body)

end EagerLoad.Decimal
