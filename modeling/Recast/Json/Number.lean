import Recast.Json.Value

set_option autoImplicit false

/-!
# Reading JSON numbers

An integer that fits 64 bits, signed or unsigned, stays an integer. Everything else is a double: up
to 64 bits of leading digits, scaled by one power of ten.
-/

namespace Recast.Json

inductive Number where
  | int (number : Int)
  | float (number : Float)
deriving Inhabited, Repr

def Number.toValue : Number → Value
  | .int number => .int number
  | .float number => .float number

def maxUnsigned : Nat := 18446744073709551615

def maxSigned : Nat := 9223372036854775807

def digitValue (char : Char) : Nat :=
  char.toNat - '0'.toNat

/-- Appends digits to a significand while it fits 64 bits, and counts the digits left over. -/
def absorb (significand : Nat) : List Char → Nat × Nat
  | [] => (significand, 0)
  | digit :: rest =>
    let next := significand * 10 + digitValue digit
    if next ≤ maxUnsigned then absorb next rest else (significand, rest.length + 1)

def powerOfTen (exponent : Nat) : Float :=
  Float.ofScientific 1 false exponent

def scaleDown (number : Float) : Nat → Nat → Float
  | 0, _ => number
  | fuel + 1, exponent =>
    if exponent ≤ 308 then number / powerOfTen exponent
    else if number == 0.0 then number
    else scaleDown (number / powerOfTen 308) fuel (exponent - 308)

def scaled (negative : Bool) (significand : Nat) (exponent : Int) : Except Fault Float :=
  let start := significand.toUInt64.toFloat
  let signed (number : Float) : Float := if negative then -number else number
  if exponent < 0 then .ok (signed (scaleDown start 5 (-exponent).toNat))
  else if exponent ≤ 308 then
    let number := start * powerOfTen exponent.toNat
    if number.isInf then .error .malformed else .ok (signed number)
  else if start == 0.0 then .ok (signed start)
  else .error .malformed

/-- The largest exponent that is added up; larger ones decide the number at once. -/
def maxExponent : Nat := 2147483647

def readExponent (negative : Bool) (significand : Nat) (exponent : Int) (input : List Char) :
    Except Fault (Float × List Char) :=
  let (down, input) :=
    match input with
    | '-' :: rest => (true, rest)
    | '+' :: rest => (false, rest)
    | _ => (false, input)
  let digits := input.takeWhile Char.isDigit
  let rest := input.dropWhile Char.isDigit
  if digits.isEmpty then .error (if input.isEmpty then .truncated else .malformed)
  else
    let size := digits.foldl (fun total digit => total * 10 + digitValue digit) 0
    if size ≤ maxExponent then
      let total := if down then exponent - size else exponent + size
      (scaled negative significand total).map (fun number => (number, rest))
    else if significand != 0 && !down then .error .malformed
    else .ok (if negative then -0.0 else 0.0, rest)

def isExponentMark (char : Char) : Bool :=
  char == 'e' || char == 'E'

/-- What follows the digits of a double: an exponent or nothing. -/
def finishDouble (negative : Bool) (significand : Nat) (exponent : Int) (input : List Char) :
    Except Fault (Float × List Char) :=
  match input with
  | mark :: rest =>
    if isExponentMark mark then readExponent negative significand exponent rest
    else (scaled negative significand exponent).map (fun number => (number, input))
  | [] => (scaled negative significand exponent).map (fun number => (number, input))

def readFraction (negative : Bool) (significand : Nat) (exponent : Int) (input : List Char) :
    Except Fault (Float × List Char) :=
  let digits := input.takeWhile Char.isDigit
  let rest := input.dropWhile Char.isDigit
  if digits.isEmpty then .error (if input.isEmpty then .truncated else .malformed)
  else
    let (total, left) := absorb significand digits
    finishDouble negative total (exponent - Int.ofNat (digits.length - left)) rest

def wholeNumber (negative : Bool) (significand left : Nat) : Except Fault Number :=
  if left = 0 then
    if !negative then .ok (.int significand)
    else if significand = 0 || maxSigned + 1 < significand then
      .ok (.float (-significand.toUInt64.toFloat))
    else .ok (.int (-Int.ofNat significand))
  else (scaled negative significand left).map .float

def readNumber (negative : Bool) (input : List Char) : Except Fault (Number × List Char) :=
  let digits := input.takeWhile Char.isDigit
  let rest := input.dropWhile Char.isDigit
  match digits with
  | [] => .error (if input.isEmpty then .truncated else .malformed)
  | '0' :: _ :: _ => .error .malformed
  | _ =>
    let (significand, left) := absorb 0 digits
    match rest with
    | '.' :: rest => (readFraction negative significand left rest).map
        (fun found => (.float found.1, found.2))
    | mark :: after =>
      if isExponentMark mark then
        (readExponent negative significand left after).map (fun found => (.float found.1, found.2))
      else (wholeNumber negative significand left).map (fun number => (number, rest))
    | [] => (wholeNumber negative significand left).map (fun number => (number, rest))

end Recast.Json
