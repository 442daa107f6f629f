import Recast.Script.Fault
import Recast.Script.Value

set_option autoImplicit false

/-!
# Arithmetic

Integers have 64 bits and never wrap: an outcome outside their range is a fault. Doubles follow
their own rules and never fail.
-/

namespace Recast.Script

def bounded (operation : Operation) (number : Int) : Except Fault Int :=
  if isInt number then .ok number else .error (.overflow operation)

def divide (left right : Int) : Except Fault Int :=
  if right = 0 then .error .divisionByZero else bounded .division (left.tdiv right)

def modulo (left right : Int) : Except Fault Int :=
  if right = 0 || (left = minInt && right = -1) then .error .moduloByZero
  else .ok (left.tmod right)

/-- Integer powers. Exponents that surely leave the range are not computed. -/
def power (base exponent : Int) : Except Fault Int :=
  if exponent < 0 then .error .negativePower
  else if 4294967296 ≤ exponent then .error (.overflow .power)
  else if base = 0 || base = 1 then .ok (if exponent = 0 then 1 else base)
  else if base = -1 then .ok (if exponent % 2 = 0 then 1 else -1)
  else if 64 ≤ exponent then .error (.overflow .power)
  else bounded .power (Int.pow base exponent.toNat)

def wrap (number : Int) : Int :=
  (number + 9223372036854775808) % 18446744073709551616 - 9223372036854775808

/-- Shifts to the left; a negative amount shifts to the right. -/
def shiftLeft (number amount : Int) : Int :=
  if amount < 0 then
    (if 64 ≤ -amount then (if number < 0 then -1 else 0)
     else Int.fdiv number (Int.pow 2 (-amount).toNat))
  else if 64 ≤ amount then 0
  else wrap (number * Int.pow 2 amount.toNat)

/-- Shifts to the right; a negative amount shifts to the left. -/
def shiftRight (number amount : Int) : Int :=
  if amount < 0 then
    (if 64 ≤ -amount then 0 else wrap (number * Int.pow 2 (-amount).toNat))
  else if 64 ≤ amount then (if number < 0 then -1 else 0)
  else Int.fdiv number (Int.pow 2 amount.toNat)

def bitsOf (number : Int) : Nat :=
  (number % 18446744073709551616).toNat

def bitwise (operation : Nat → Nat → Nat) (left right : Int) : Int :=
  wrap (Int.ofNat (operation (bitsOf left) (bitsOf right)))

/-- The integer part of a double, if it has one. -/
def wholePart? (number : Float) : Option Int :=
  match Decimal.shapeOf number with
  | .finite negative magnitude =>
    let size :=
      magnitude.significand * Nat.pow 2 magnitude.exponent.toNat /
        Nat.pow 2 (-magnitude.exponent).toNat
    some (if negative then -Int.ofNat size else Int.ofNat size)
  | .zero _ => some 0
  | .nan => none
  | .infinite _ => none

def ofMagnitude (significand : Nat) (exponent : Int) : Nat → Float
  | 0 => 0.0
  | fuel + 1 =>
    if significand = 0 then 0.0
    else if significand % 2 = 0 then ofMagnitude (significand / 2) (exponent + 1) fuel
    else significand.toUInt64.toFloat.scaleB exponent

def remainder (left right : Float) : Float :=
  match Decimal.shapeOf left, Decimal.shapeOf right with
  | .nan, _ => left
  | _, .nan => right
  | .infinite _, _ => 0.0 / 0.0
  | _, .zero _ => 0.0 / 0.0
  | .zero _, _ => left
  | _, .infinite _ => left
  | .finite negative dividend, .finite _ divisor =>
    let exponent := min dividend.exponent divisor.exponent
    let scaledDividend := dividend.significand * Nat.pow 2 (dividend.exponent - exponent).toNat
    let scaledDivisor := divisor.significand * Nat.pow 2 (divisor.exponent - exponent).toNat
    let rest := scaledDividend % scaledDivisor
    let size := ofMagnitude rest exponent 2200
    if negative then -size else size

def intOperator? (sign : String) (left right : Int) : Option (Except Fault Value) :=
  match sign with
  | "+" => some ((bounded .addition (left + right)).map .int)
  | "-" => some ((bounded .subtraction (left - right)).map .int)
  | "*" => some ((bounded .multiplication (left * right)).map .int)
  | "/" => some ((divide left right).map .int)
  | "%" => some ((modulo left right).map .int)
  | "**" => some ((power left right).map .int)
  | "<<" => some (.ok (.int (shiftLeft left right)))
  | ">>" => some (.ok (.int (shiftRight left right)))
  | "&" => some (.ok (.int (bitwise (· &&& ·) left right)))
  | "|" => some (.ok (.int (bitwise (· ||| ·) left right)))
  | "^" => some (.ok (.int (bitwise (· ^^^ ·) left right)))
  | ".." => some (.ok (.range left right false))
  | "..=" => some (.ok (.range left right true))
  | "==" => some (.ok (.bool (left == right)))
  | "!=" => some (.ok (.bool (left != right)))
  | "<" => some (.ok (.bool (left < right)))
  | "<=" => some (.ok (.bool (left ≤ right)))
  | ">" => some (.ok (.bool (left > right)))
  | ">=" => some (.ok (.bool (left ≥ right)))
  | _ => none

def floatOperator? (sign : String) (left right : Float) : Option Value :=
  match sign with
  | "+" => some (.float (left + right))
  | "-" => some (.float (left - right))
  | "*" => some (.float (left * right))
  | "/" => some (.float (left / right))
  | "%" => some (.float (remainder left right))
  | "**" => some (.float (left.pow right))
  | "==" => some (.bool (left == right))
  | "!=" => some (.bool (!(left == right)))
  | "<" => some (.bool (left < right))
  | "<=" => some (.bool (left ≤ right))
  | ">" => some (.bool (left > right))
  | ">=" => some (.bool (left ≥ right))
  | _ => none

end Recast.Script
