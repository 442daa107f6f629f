import Recast.Calendar.Pattern
import Recast.Decimal.Reader
import Recast.Json.Printer
import Recast.Text.Search

set_option autoImplicit false

/-!
# Script values

The values of template expressions, their conversion from JSON and back, and the two ways in which
they are written as text: as part of a text, and as a literal.
-/

namespace Recast.Script

/-- A value of an expression. Maps are sorted by key. An instant is a reading of the clock. A
function value names one of the functions of its script and holds what it captured. -/
inductive Value where
  | unit
  | bool (flag : Bool)
  | int (number : Int)
  | float (number : Float)
  | char (letter : Char)
  | text (content : String)
  | array (items : List Value)
  | map (entries : List (String × Value))
  | range (first last : Int) (inclusive : Bool)
  | time (seconds : Int)
  | instant (nanoseconds : Int)
  | blob (bytes : List UInt8)
  | function (index : Nat) (captured : List Value)
deriving Inhabited, Repr

def minInt : Int := -9223372036854775808

def maxInt : Int := 9223372036854775807

def isInt (number : Int) : Bool :=
  minInt ≤ number && number ≤ maxInt

def textBefore (left right : String) : Bool :=
  decide (left < right)

/-- Puts an entry at its place in a sorted map and replaces an entry of the same key. -/
def insertSorted {α : Type} (key : String) (value : α) : List (String × α) → List (String × α)
  | [] => [(key, value)]
  | (name, old) :: rest =>
    if key = name then (key, value) :: rest
    else if textBefore key name then (key, value) :: (name, old) :: rest
    else (name, old) :: insertSorted key value rest

/-- Merges two sorted maps of disjoint keys; of equal keys the first one's entry wins. -/
def mergeSorted {α : Type} : Nat → List (String × α) → List (String × α) → List (String × α)
  | 0, left, right => left ++ right
  | _ + 1, [], right => right
  | _ + 1, left, [] => left
  | fuel + 1, (key, value) :: left, (other, old) :: right =>
    if key = other then (key, value) :: mergeSorted fuel left right
    else if textBefore key other then
      (key, value) :: mergeSorted fuel left ((other, old) :: right)
    else (other, old) :: mergeSorted fuel ((key, value) :: left) right

def sortedMap {α : Type} (entries : List (String × α)) : List (String × α) :=
  entries.foldl (fun sorted entry => insertSorted entry.1 entry.2 sorted) []

mutual

/-- A JSON value as a script value. Integers that need all 64 bits unsigned become doubles. -/
def Value.ofJson : Json.Value → Value
  | .null => .unit
  | .bool flag => .bool flag
  | .int number => if isInt number then .int number else .float (Decimal.ofInt number)
  | .float number => .float number
  | .text content => .text content
  | .array items => .array (ofJsonItems items)
  | .object entries => .map (sortedMap (ofJsonEntries entries))

def ofJsonItems : List Json.Value → List Value
  | [] => []
  | item :: rest => Value.ofJson item :: ofJsonItems rest

def ofJsonEntries : List (String × Json.Value) → List (String × Value)
  | [] => []
  | (key, value) :: rest => (key, Value.ofJson value) :: ofJsonEntries rest

end

def literalDoubles : Decimal.Layout where
  isPositional := fun exponent => -5 ≤ exponent && exponent < 16
  signedExponent := false
  nan := "NaN"
  infinity := "inf"
  negativeInfinity := "-inf"

/-- The largest double that is written positionally: ten trillion in single precision. -/
def largestPositional : Float := 9999999827968.0

/-- The smallest double that is written positionally: a ten-trillionth in single precision. -/
def smallestPositional : Float := 9.9999998245167e-14

/-- A double inside a text. Zero carries no sign. -/
def floatText (number : Float) : List Char :=
  match Decimal.shapeOf number with
  | .nan => ['N', 'a', 'N']
  | .infinite negative => if negative then ['-', 'i', 'n', 'f'] else ['i', 'n', 'f']
  | .zero _ => ['0', '.', '0']
  | .finite negative magnitude =>
    let digits := magnitude.shortest
    let size := number.abs
    let body :=
      if size > largestPositional || size < smallestPositional then digits.scientific false
      else digits.positional
    if negative then '-' :: body else body

def rangeText (first last : Int) (inclusive : Bool) : List Char :=
  Decimal.intText first ++ ['.', '.'] ++ (if inclusive then ['='] else []) ++ Decimal.intText last

def timeText (seconds : Int) : List Char :=
  Calendar.display (Calendar.DateTime.ofSeconds seconds)

def byteText (byte : UInt8) : List Char :=
  let digits := Nat.toDigits 16 byte.toNat
  if digits.length < 2 then '0' :: digits else digits

/-- Bytes in groups of eight; `written` counts those before them. -/
def bytesText (written : Nat) : List UInt8 → List Char
  | [] => []
  | byte :: rest =>
    (if 0 < written && written % 8 = 0 then [' '] else []) ++ byteText byte ++
      bytesText (written + 1) rest

def literalChar (quote char : Char) : List Char :=
  if char = quote || char = '\\' then ['\\', char]
  else if char = '\n' then ['\\', 'n']
  else if char = '\r' then ['\\', 'r']
  else if char = '\t' then ['\\', 't']
  else if char = '\x00' then ['\\', '0']
  else if char.toNat < 0x20 || char.toNat = 0x7F then
    ['\\', 'u', '\x7b'] ++ Nat.toDigits 16 char.toNat ++ ['\x7d']
  else [char]

mutual

def Value.literal : Value → List Char
  | .unit => ['(', ')']
  | .bool flag => if flag then ['t', 'r', 'u', 'e'] else ['f', 'a', 'l', 's', 'e']
  | .int number => Decimal.intText number
  | .float number => literalDoubles.write number
  | .char letter => '\'' :: literalChar '\'' letter ++ ['\'']
  | .text content => '"' :: content.toList.flatMap (literalChar '"') ++ ['"']
  | .array items => '[' :: literalItems items ++ [']']
  | .map entries => '#' :: '\x7b' :: literalEntries entries ++ ['\x7d']
  | .range first last inclusive => rangeText first last inclusive
  | .time seconds => timeText seconds
  | .instant _ => ['<', 't', 'i', 'm', 'e', 's', 't', 'a', 'm', 'p', '>']
  | .blob bytes => '[' :: bytesText 0 bytes ++ [']']
  | .function _ _ => ['F', 'n']

def literalItems : List Value → List Char
  | [] => []
  | item :: rest =>
    item.literal ++ (if rest.isEmpty then [] else [',', ' ']) ++ literalItems rest

def literalEntries : List (String × Value) → List Char
  | [] => []
  | (key, value) :: rest =>
    '"' :: key.toList.flatMap (literalChar '"') ++ ['"', ':', ' '] ++ value.literal ++
      (if rest.isEmpty then [] else [',', ' ']) ++ literalEntries rest

end

mutual

/-- A value of JSON kinds as JSON. Ranges, times, instants, blobs and functions have no JSON kind;
inside a container they make the container have none. -/
def Value.toJson? : Value → Option Json.Value
  | .unit => some .null
  | .bool flag => some (.bool flag)
  | .int number => some (.int number)
  | .float number => some (if number.isFinite then .float number else .null)
  | .char letter => some (.text (String.singleton letter))
  | .text content => some (.text content)
  | .array items => (toJsonItems? items).map .array
  | .map entries => (toJsonEntries? entries).map .object
  | .range _ _ _ => none
  | .time _ => none
  | .instant _ => none
  | .blob _ => none
  | .function _ _ => none

def toJsonItems? : List Value → Option (List Json.Value)
  | [] => some []
  | item :: rest =>
    match item.toJson?, toJsonItems? rest with
    | some item, some rest => some (item :: rest)
    | _, _ => none

def toJsonEntries? : List (String × Value) → Option (List (String × Json.Value))
  | [] => some []
  | (key, value) :: rest =>
    match value.toJson?, toJsonEntries? rest with
    | some value, some rest => some ((key, value) :: rest)
    | _, _ => none

end

/-- The outcome of an expression as JSON. What has no JSON form is given as its literal text. -/
def Value.toJson (value : Value) : Json.Value :=
  match value.toJson? with
  | some json => json
  | none => .text (String.ofList value.literal)

/-- A value as part of a text. Arrays and maps are written as compact JSON. -/
def Value.printed : Value → String
  | .unit => ""
  | .bool flag => if flag then "true" else "false"
  | .int number => String.ofList (Decimal.intText number)
  | .float number => String.ofList (floatText number)
  | .char letter => String.singleton letter
  | .text content => content
  | .array items => (Value.array items).toJson.asText
  | .map entries => (Value.map entries).toJson.asText
  | .range first last inclusive => String.ofList (rangeText first last inclusive)
  | .time seconds => String.ofList (timeText seconds)
  | .instant nanoseconds => String.ofList (Value.instant nanoseconds).literal
  | .blob bytes => String.ofList (Value.blob bytes).literal
  | .function _ _ => "Fn"

/-- A constant as part of a constant text. Arrays and maps are written as literals. -/
def Value.constantText : Value → String
  | .array items => String.ofList (Value.array items).literal
  | .map entries => String.ofList (Value.map entries).literal
  | value => value.printed

def Value.kind : Value → String
  | .unit => "()"
  | .bool _ => "bool"
  | .int _ => "i64"
  | .float _ => "f64"
  | .char _ => "char"
  | .text _ => "string"
  | .array _ => "array"
  | .map _ => "map"
  | .range _ _ false => "range"
  | .range _ _ true => "range="
  | .time _ => "Time"
  | .instant _ => "timestamp"
  | .blob _ => "blob"
  | .function _ _ => "Fn"

def valueOf? (entries : List (String × Value)) (key : String) : Option Value :=
  entries.lookup key

def maxTextBytes : Nat := 1000000

def maxItems : Nat := 10000

mutual

/-- The number of array items and of map entries in a value, at every depth, and the bytes of its
texts. The bytes of a blob count as items. -/
def Value.sizes : Value → Nat × Nat × Nat
  | .text content => (0, 0, content.utf8ByteSize)
  | .blob bytes => (bytes.length, 0, 0)
  | .array items => sizesOfItems items
  | .map entries => sizesOfEntries entries
  | _ => (0, 0, 0)

def sizesOfItems : List Value → Nat × Nat × Nat
  | [] => (0, 0, 0)
  | item :: rest =>
    let (arrays, maps, bytes) := item.sizes
    let (moreArrays, moreMaps, moreBytes) := sizesOfItems rest
    (arrays + moreArrays + 1, maps + moreMaps, bytes + moreBytes)

def sizesOfEntries : List (String × Value) → Nat × Nat × Nat
  | [] => (0, 0, 0)
  | (_, value) :: rest =>
    let (arrays, maps, bytes) := value.sizes
    let (moreArrays, moreMaps, moreBytes) := sizesOfEntries rest
    (arrays + moreArrays, maps + moreMaps + 1, bytes + moreBytes)

end

end Recast.Script
