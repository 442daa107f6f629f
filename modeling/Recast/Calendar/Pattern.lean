import Recast.Calendar.Date
import Recast.Decimal.Layout

set_option autoImplicit false

/-!
# Time patterns

A pattern is text with directives, each a percent sign and a letter. A padding mark may stand
before the letter of a directive that is one number. Anything else makes the pattern invalid.
-/

namespace Recast.Calendar

open Recast.Decimal (natText intText)

inductive Padding where
  | none
  | zero
  | space
deriving Repr, DecidableEq

def padLeft (width : Nat) (fill : Char) (text : List Char) : List Char :=
  List.replicate (width - text.length) fill ++ text

/-- A number with padding. Zeros stand after the sign, spaces before it. -/
def paddedNumber (padding : Padding) (width : Nat) (signed : Bool) (number : Int) : List Char :=
  let magnitude := natText number.natAbs
  let sign := if number < 0 then ['-'] else if signed then ['+'] else []
  match padding with
  | .none => sign ++ magnitude
  | .zero => sign ++ padLeft (width - sign.length) '0' magnitude
  | .space => padLeft width ' ' (sign ++ magnitude)

/-- A year. Years of four digits are never padded; others outside 0 to 9999 carry a sign. -/
def yearText (padding : Padding) (year : Int) : List Char :=
  if 0 ≤ year && year ≤ 9999 then paddedNumber padding 4 false year
  else paddedNumber padding 5 true year

/-- Two decimal places of a byte; tens above nine continue along the character table. -/
def twoPlaces (padding : Padding) (number : Int) : List Char :=
  let byte := (number % 256).toNat
  let ones := Char.ofNat (48 + byte % 10)
  match byte / 10, padding with
  | 0, .none => [ones]
  | 0, .space => [' ', ones]
  | tens, _ => [Char.ofNat (48 + tens), ones]

def dayNames : List String :=
  ["Monday", "Tuesday", "Wednesday", "Thursday", "Friday", "Saturday", "Sunday"]

def monthNames : List String :=
  ["January", "February", "March", "April", "May", "June", "July", "August", "September",
    "October", "November", "December"]

def nameAt (names : List String) (position : Int) : List Char :=
  (names.getD position.toNat "").toList

def hourOfTwelve (hour : Int) : Int :=
  if hour % 12 = 0 then 12 else hour % 12

/-- A directive that is one number: its usual padding and its form. -/
def numberDirective? (time : DateTime) (letter : Char) :
    Option (Padding × (Padding → List Char)) :=
  let date := time.date
  let two (number : Int) (padding : Padding) := twoPlaces padding number
  match letter with
  | 'Y' => some (.zero, fun padding => yearText padding date.year)
  | 'C' => some (.zero, two (date.year / 100))
  | 'y' => some (.zero, two (date.year % 100))
  | 'G' => some (.zero, fun padding => yearText padding date.isoWeek.1)
  | 'g' => some (.zero, two (date.isoWeek.1 % 100))
  | 'q' => some (.none, fun _ => natText ((date.month.toNat - 1) / 3 + 1))
  | 'm' => some (.zero, two date.month)
  | 'd' => some (.zero, two date.day)
  | 'e' => some (.space, two date.day)
  | 'U' => some (.zero, two (date.weekFrom 6))
  | 'W' => some (.zero, two (date.weekFrom 0))
  | 'V' => some (.zero, two date.isoWeek.2)
  | 'u' => some (.none, fun _ => intText (weekday date.toDays + 1))
  | 'w' => some (.none, fun _ => intText ((weekday date.toDays + 1) % 7))
  | 'j' => some (.zero, fun padding => paddedNumber padding 3 false date.ordinal)
  | 'H' => some (.zero, two time.hour)
  | 'k' => some (.space, two time.hour)
  | 'I' => some (.zero, two (hourOfTwelve time.hour))
  | 'l' => some (.space, two (hourOfTwelve time.hour))
  | 'M' => some (.zero, two time.minute)
  | 'S' => some (.zero, two time.second)
  | 'f' => some (.zero, fun padding => paddedNumber padding 9 false 0)
  | 's' => some (.none, fun padding => paddedNumber padding 9 false time.toSeconds)
  | _ => none

def numberText (time : DateTime) (letter : Char) : List Char :=
  match numberDirective? time letter with
  | some (padding, form) => form padding
  | none => []

/-- Directives and text between them, each letter of a list being a number directive, and every
other character standing for itself. -/
def compound (time : DateTime) (letters : List Char) : List Char :=
  letters.flatMap fun letter =>
    if letter.isAlpha then numberText time letter else [letter]

def shortName (name : List Char) : List Char :=
  name.take 3

def halfDay (time : DateTime) (morning afternoon : String) : List Char :=
  (if time.hour < 12 then morning else afternoon).toList

def isoText (time : DateTime) : List Char :=
  yearText .zero time.date.year ++ compound time "-m-d".toList ++ ['T'] ++
    compound time "H:M:S".toList ++ "+00:00".toList

def wordDirective? (time : DateTime) (letter : Char) : Option (List Char) :=
  let day := nameAt dayNames (weekday time.date.toDays)
  let month := nameAt monthNames (time.date.month - 1)
  match letter with
  | 'A' => some day
  | 'a' => some (shortName day)
  | 'B' => some month
  | 'b' => some (shortName month)
  | 'h' => some (shortName month)
  | 'D' => some (compound time "m/d/y".toList)
  | 'x' => some (compound time "m/d/y".toList)
  | 'F' => some (compound time "Y-m-d".toList)
  | 'R' => some (compound time "H:M".toList)
  | 'T' => some (compound time "H:M:S".toList)
  | 'X' => some (compound time "H:M:S".toList)
  | 'r' => some (compound time "I:M:S ".toList ++ halfDay time "AM" "PM")
  | 'v' => some (compound time "e-".toList ++ shortName month ++ compound time "-Y".toList)
  | 'c' =>
    some (shortName day ++ ' ' :: shortName month ++ compound time " e H:M:S Y".toList)
  | 'p' => some (halfDay time "AM" "PM")
  | 'P' => some (halfDay time "am" "pm")
  | 'Z' => some "UTC".toList
  | 'z' => some "+0000".toList
  | '+' => some (isoText time)
  | 'n' => some ['\n']
  | 't' => some ['\t']
  | '%' => some ['%']
  | _ => none

/-- Directives of several characters, each with its text. Fractions of a second are all zero. -/
def longDirectives : List (String × String) :=
  [("#z", "+0000"), (":::z", "+00"), ("::z", "+00:00:00"), (":z", "+00:00"), (".3f", ".000"),
    (".6f", ".000000"), (".9f", ".000000000"), (".f", ""), ("3f", "000"), ("6f", "000000"),
    ("9f", "000000000")]

def paddingMark? (char : Char) : Option Padding :=
  match char with
  | '-' => some .none
  | '_' => some .space
  | '0' => some .zero
  | _ => none

def longDirective? (input : List Char) : Option (List Char × List Char) :=
  longDirectives.findSome? fun (name, output) =>
    if name.toList.isPrefixOf input then some (output.toList, input.drop name.length) else none

def directive? (time : DateTime) (input : List Char) : Option (List Char × List Char) :=
  match input with
  | [] => none
  | mark :: rest =>
    match paddingMark? mark, rest with
    | some _, [] => none
    | some padding, letter :: rest =>
      (numberDirective? time letter).map fun directive => (directive.2 padding, rest)
    | none, rest =>
      match numberDirective? time mark with
      | some (padding, form) => some (form padding, rest)
      | none =>
        match wordDirective? time mark with
        | some output => some (output, rest)
        | none => longDirective? input

def formatFrom? (time : DateTime) : Nat → List Char → Option (List Char)
  | _, [] => some []
  | 0, _ :: _ => none
  | fuel + 1, '%' :: rest =>
    match directive? time rest with
    | some (output, rest) => (formatFrom? time fuel rest).map (output ++ ·)
    | none => none
  | fuel + 1, char :: rest => (formatFrom? time fuel rest).map (char :: ·)

def format? (time : DateTime) (pattern : List Char) : Option (List Char) :=
  formatFrom? time pattern.length pattern

def display (time : DateTime) : List Char :=
  yearText .zero time.date.year ++ compound time "-m-d H:M:S".toList ++ " +0000".toList

end Recast.Calendar
