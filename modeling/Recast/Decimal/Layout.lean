import Recast.Decimal.Shortest

set_option autoImplicit false

/-!
# Laying out decimal digits

Positional and scientific forms of a digit sequence. Which form a number takes is a matter of the
format that writes it.
-/

namespace Recast.Decimal

def natText (number : Nat) : List Char :=
  Nat.toDigits 10 number

def intText : Int → List Char
  | .ofNat number => natText number
  | .negSucc number => '-' :: natText (number + 1)

def Digits.positional (number : Digits) : List Char :=
  if number.exponent < 0 then
    ['0', '.'] ++ List.replicate ((-number.exponent).toNat - 1) '0' ++ number.digits
  else
    let whole := number.exponent.toNat + 1
    let front := number.digits.take whole
    let back := number.digits.drop whole
    let whole := front ++ List.replicate (whole - front.length) '0'
    whole ++ '.' :: (if back.isEmpty then ['0'] else back)

/-- One digit before the point, and an exponent. A positive exponent is signed on demand. -/
def Digits.scientific (number : Digits) (signed : Bool) : List Char :=
  let mantissa :=
    match number.digits with
    | [] => ['0']
    | [digit] => [digit]
    | digit :: rest => digit :: '.' :: rest
  let sign := if signed && 0 ≤ number.exponent then ['+'] else []
  mantissa ++ 'e' :: sign ++ intText number.exponent

/-- A form of doubles: positional where `isPositional` holds of the leading exponent. -/
structure Layout where
  isPositional : Int → Bool
  signedExponent : Bool
  nan : String
  infinity : String
  negativeInfinity : String

def Layout.write (layout : Layout) (number : Float) : List Char :=
  match shapeOf number with
  | .nan => layout.nan.toList
  | .infinite negative => (if negative then layout.negativeInfinity else layout.infinity).toList
  | .zero negative => if negative then ['-', '0', '.', '0'] else ['0', '.', '0']
  | .finite negative magnitude =>
    let digits := magnitude.shortest
    let body :=
      if layout.isPositional digits.exponent then digits.positional
      else digits.scientific layout.signedExponent
    if negative then '-' :: body else body

def isMidRange (exponent : Int) : Bool :=
  -5 ≤ exponent && exponent < 16

end Recast.Decimal
