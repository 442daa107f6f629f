set_option autoImplicit false

/-!
# Shortest decimals

The decimal with the fewest digits that lies in the rounding interval of a binary floating-point
number, and of those the nearest. Everything is exact arithmetic on natural numbers.
-/

namespace Recast.Decimal

structure Binary where
  significand : Nat
  exponent : Int
deriving Repr, DecidableEq

inductive Shape where
  | nan
  | infinite (negative : Bool)
  | zero (negative : Bool)
  | finite (negative : Bool) (magnitude : Binary)
deriving Repr, DecidableEq

def shapeOf (number : Float) : Shape :=
  let bits := number.toBits.toNat
  let negative := decide (Nat.pow 2 63 ≤ bits)
  let biased := bits / Nat.pow 2 52 % Nat.pow 2 11
  let fraction := bits % Nat.pow 2 52
  if biased = 2047 then
    if fraction = 0 then .infinite negative else .nan
  else if biased = 0 then
    if fraction = 0 then .zero negative else .finite negative ⟨fraction, -1074⟩
  else .finite negative ⟨Nat.pow 2 52 + fraction, Int.ofNat biased - 1075⟩

/-- Decimal digits and the exponent of the first one: `[1, 5]` and `3` stand for `1500`. -/
structure Digits where
  digits : List Char
  exponent : Int
deriving Repr, DecidableEq

structure Interval where
  low : Nat
  middle : Nat
  high : Nat
  denominator : Nat
  closed : Bool
deriving Repr, DecidableEq

/-- Half the distance to either neighbour. Below a power of two the neighbour is nearer. The ends
round to the number itself exactly when its significand is even. -/
def Binary.interval (number : Binary) : Interval :=
  let below := if number.significand = Nat.pow 2 52 && number.exponent > -1074 then 1 else 2
  let scale := number.exponent - 2
  let up := Nat.pow 2 scale.toNat
  { low := (4 * number.significand - below) * up
    middle := 4 * number.significand * up
    high := (4 * number.significand + 2) * up
    denominator := Nat.pow 2 (-scale).toNat
    closed := number.significand % 2 = 0 }

def Interval.contains (interval : Interval) (numerator denominator : Nat) : Bool :=
  let value := numerator * interval.denominator
  let low := interval.low * denominator
  let high := interval.high * denominator
  if interval.closed then low ≤ value && value ≤ high else low < value && value < high

def leadingExponent (numerator denominator : Nat) : Int :=
  if denominator ≤ numerator then
    Int.ofNat (Nat.toDigits 10 (numerator / denominator)).length - 1
  else
    -Int.ofNat (Nat.toDigits 10 (denominator / numerator)).length

/-- The points of the grid `10 ^ place` beside the middle of the interval, the nearer one first.
Of two equally near points the even one comes first. -/
def Interval.neighbours (interval : Interval) (place : Int) : List Nat :=
  let numerator := interval.middle * Nat.pow 10 (-place).toNat
  let denominator := interval.denominator * Nat.pow 10 place.toNat
  let below := numerator / denominator
  let twice := 2 * (numerator % denominator)
  let belowFirst := twice < denominator || (twice == denominator && below % 2 == 0)
  if belowFirst then [below, below + 1] else [below + 1, below]

def Interval.containsPoint (interval : Interval) (place : Int) (point : Nat) : Bool :=
  interval.contains (point * Nat.pow 10 place.toNat) (Nat.pow 10 (-place).toNat)

/-- Tries finer and finer grids; the first one with a point in the interval wins. -/
def Interval.search (interval : Interval) (top : Int) : Nat → Int → Nat × Int
  | 0, place => (interval.middle / interval.denominator, place)
  | fuel + 1, place =>
    match (interval.neighbours place).find? (interval.containsPoint place) with
    | some point => if point = 0 then interval.search top fuel (place - 1) else (point, place)
    | none => interval.search top fuel (place - 1)

def dropTrailingZeros (digits : List Char) : List Char :=
  (digits.reverse.dropWhile (· == '0')).reverse

/-- The shortest digits of a magnitude. Seventeen digits always suffice. -/
def Binary.shortest (number : Binary) : Digits :=
  let interval := number.interval
  let top := leadingExponent interval.middle interval.denominator
  let found := interval.search top 20 (top + 1)
  let digits := Nat.toDigits 10 found.1
  { digits := dropTrailingZeros digits
    exponent := found.2 + Int.ofNat digits.length - 1 }

end Recast.Decimal
