import Recast.Script.Library.Blob

set_option autoImplicit false

/-!
# Methods of numbers

Sleeping takes time and does nothing else.
-/

namespace Recast.Script

def inBase (base : Nat) (number : Int) : Value :=
  .text (String.ofList (Nat.toDigits base (bitsOf number)))

/-- The integer part of a double, if it is an integer of 64 bits. The first double above them
still gives the largest one, and what is not a number gives zero. -/
def toInt (number : Float) : Except Fault Value :=
  match wholePart? number with
  | some value =>
    if value = maxInt + 1 then .ok (.int maxInt) else (bounded .conversion value).map .int
  | none => if number.isNaN then .ok (.int 0) else .error (.overflow .conversion)

/-- The position of a bit; a negative one counts from the highest. -/
def bitPosition (position : Int) : Except Fault Nat :=
  let resolved := if position < 0 then 64 + position else position
  if 0 ≤ resolved && resolved < 64 then .ok resolved.toNat
  else .error (.outOfBounds .bits position)

def bitAt (number position : Int) : Except Fault Bool := do
  let position ← bitPosition position
  .ok (bitsOf number / Nat.pow 2 position % 2 == 1)

def bitsFrom (number : Int) (start count : Nat) : Int :=
  wrap (Int.ofNat (bitsOf number / Nat.pow 2 start % Nat.pow 2 count))

/-- The integer made of the bits from a signed start on; those past the highest do not count. -/
def bitsAt (number start count : Int) : Except Fault Value :=
  if count ≤ 0 then .ok (.int 0)
  else do
    let start ← bitPosition start
    .ok (.int (bitsFrom number start (min count.toNat (64 - start))))

/-- The integer made of the bits that a range covers. Both of its ends must be positions. -/
def bitsInRange (number first last : Int) (inclusive : Bool) : Except Fault Value :=
  if first < 0 || 64 ≤ first then .error (.outOfBounds .bits first)
  else if last < 0 || 64 ≤ last then .error (.outOfBounds .bits last)
  else
    let count := (if inclusive then last + 1 else last) - first
    .ok (.int (bitsFrom number first.toNat count.toNat))

def withBit (number position : Int) (flag : Bool) : Except Fault Value := do
  let position ← bitPosition position
  let bits := bitsOf number
  let cleared := bits - bits / Nat.pow 2 position % 2 * Nat.pow 2 position
  .ok (.int (wrap (Int.ofNat (if flag then cleared + Nat.pow 2 position else cleared))))

def truncated (number : Float) : Float :=
  if number < 0.0 then number.ceil else number.floor

def pi : Float := 3.141592653589793

def intMethod? (name : String) (number : Int) (values : List Value) : Option Method :=
  let same := Value.int number
  match name, values with
  | "abs", [] => Method.trying same ((bounded .negation number.natAbs).map .int)
  | "-", [] => Method.trying same ((bounded .minus (-number)).map .int)
  | "+", [] => Method.of same same
  | "sign", [] => Method.of same (.int number.sign)
  | "is_zero", [] => Method.of same (.bool (number == 0))
  | "is_odd", [] => Method.of same (.bool (number % 2 == 1))
  | "is_even", [] => Method.of same (.bool (number % 2 == 0))
  | "to_float", [] => Method.of same (.float (Decimal.ofInt number))
  | "to_int", [] => Method.of same same
  | "to_hex", [] => Method.of same (inBase 16 number)
  | "to_octal", [] => Method.of same (inBase 8 number)
  | "to_binary", [] => Method.of same (inBase 2 number)
  | "blob", [] => Method.trying same (blobOf number 0)
  | "blob", [.int byte] => Method.trying same (blobOf number (lowestByte byte))
  | "range", [.int last] => Method.of same (.range number last false)
  | "sleep", [] => Method.of same .unit
  | "get_bit", [.int position] => Method.trying same ((bitAt number position).map .bool)
  | "get_bits", [.int start, .int count] => Method.trying same (bitsAt number start count)
  | "get_bits", [.range first last inclusive] =>
    let start := max first 0
    Method.trying same (bitsAt number start (rangeLength start last inclusive))
  | "set_bit", [.int position, .bool flag] => Method.tryReplacing (withBit number position flag)
  | "max", [.int other] => Method.of same (.int (max number other))
  | "min", [.int other] => Method.of same (.int (min number other))
  | "max", [.float other] =>
    let value := Decimal.ofInt number
    Method.of same (.float (if value < other then other else value))
  | "min", [.float other] =>
    let value := Decimal.ofInt number
    Method.of same (.float (if other < value then other else value))
  | _, _ => none

def floatFunction? (name : String) : Option (Float → Float) :=
  match name with
  | "sqrt" => some Float.sqrt
  | "sin" => some Float.sin
  | "cos" => some Float.cos
  | "tan" => some Float.tan
  | "sinh" => some Float.sinh
  | "cosh" => some Float.cosh
  | "tanh" => some Float.tanh
  | "asin" => some Float.asin
  | "acos" => some Float.acos
  | "atan" => some Float.atan
  | "asinh" => some Float.asinh
  | "acosh" => some Float.acosh
  | "atanh" => some Float.atanh
  | "exp" => some Float.exp
  | "ln" => some Float.log
  | "log" => some Float.log10
  | "floor" => some Float.floor
  | "ceiling" => some Float.ceil
  | "round" => some Float.round
  | "int" => some truncated
  | "fraction" => some fun number => number - truncated number
  | "to_degrees" => some fun number => number * (180.0 / pi)
  | "to_radians" => some fun number => number * (pi / 180.0)
  | _ => none

def floatMethod? (name : String) (number : Float) (values : List Value) : Option Method :=
  let same := Value.float number
  match name, values with
  | "abs", [] => Method.of same (.float number.abs)
  | "-", [] => Method.of same (.float (-number))
  | "+", [] => Method.of same same
  | "sign", [] =>
    if number.isNaN then Method.trying same (.error .undefinedSign)
    else Method.of same (.int (if number > 0.0 then 1 else if number < 0.0 then -1 else 0))
  | "is_zero", [] => Method.of same (.bool (number == 0.0))
  | "is_nan", [] => Method.of same (.bool number.isNaN)
  | "is_finite", [] => Method.of same (.bool number.isFinite)
  | "is_infinite", [] => Method.of same (.bool number.isInf)
  | "to_int", [] => Method.trying same (toInt number)
  | "sleep", [] => Method.of same .unit
  | "log", [.float base] => Method.of same (.float (number.log / base.log))
  | "atan", [.float other] => Method.of same (.float (number.atan2 other))
  | "hypot", [.float other] => Method.of same (.float (number * number + other * other).sqrt)
  | "max", [.float other] => Method.of same (.float (if number < other then other else number))
  | "min", [.float other] => Method.of same (.float (if other < number then other else number))
  | "max", [.int other] =>
    let other := Decimal.ofInt other
    Method.of same (.float (if number < other then other else number))
  | "min", [.int other] =>
    let other := Decimal.ofInt other
    Method.of same (.float (if other < number then other else number))
  | name, [] => (floatFunction? name).bind fun function => Method.of same (.float (function number))
  | _, _ => none

end Recast.Script
