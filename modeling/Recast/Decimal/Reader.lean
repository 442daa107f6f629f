import Recast.Decimal.Layout

set_option autoImplicit false

/-!
# Reading doubles

The double nearest to a decimal text. A text is an optional sign, digits with at most one point,
and an optional exponent, or one of the words for infinity and for no number.
-/

namespace Recast.Decimal

def digitsValue (digits : List Char) : Nat :=
  digits.foldl (fun total digit => total * 10 + (digit.toNat - '0'.toNat)) 0

/-- The double nearest to `significand * 10 ^ exponent`. Exponents far outside the range of
doubles are decided without computing the power. -/
def nearest (significand : Nat) (exponent : Int) : Float :=
  if significand = 0 then 0.0
  else
    let top := Int.ofNat (natText significand).length + exponent
    if top > 400 then 1.0 / 0.0
    else if top < -400 then 0.0
    else if exponent < 0 then Float.ofScientific significand true (-exponent).toNat
    else Float.ofScientific significand false exponent.toNat

def ofInt (number : Int) : Float :=
  if number < 0 then -nearest number.natAbs 0 else nearest number.natAbs 0

def signedValue? (input : List Char) : Option Int :=
  let (negative, digits) :=
    match input with
    | '-' :: rest => (true, rest)
    | '+' :: rest => (false, rest)
    | _ => (false, input)
  if digits.isEmpty || !digits.all Char.isDigit then none
  else
    let value := Int.ofNat (digitsValue digits)
    some (if negative then -value else value)

def unsignedDouble? (input : List Char) : Option Float :=
  let whole := input.takeWhile Char.isDigit
  let rest := input.dropWhile Char.isDigit
  let (fraction, rest) :=
    match rest with
    | '.' :: rest => (rest.takeWhile Char.isDigit, rest.dropWhile Char.isDigit)
    | _ => ([], rest)
  if whole.isEmpty && fraction.isEmpty then none
  else
    let significand := digitsValue (whole ++ fraction)
    let scale := -Int.ofNat fraction.length
    match rest with
    | [] => some (nearest significand scale)
    | mark :: rest =>
      if mark = 'e' || mark = 'E' then
        (signedValue? rest).map fun exponent => nearest significand (scale + exponent)
      else none

def wordDouble? (input : List Char) : Option Float :=
  let word := String.ofList (input.map Char.toLower)
  if word = "inf" || word = "infinity" then some (1.0 / 0.0)
  else if word = "nan" then some (0.0 / 0.0)
  else none

def double? (input : List Char) : Option Float :=
  let (negative, rest) :=
    match input with
    | '-' :: rest => (true, rest)
    | '+' :: rest => (false, rest)
    | _ => (false, input)
  let magnitude := (unsignedDouble? rest).orElse fun _ => wordDouble? rest
  magnitude.map fun number => if negative then -number else number

end Recast.Decimal
