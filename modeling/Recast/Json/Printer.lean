import Recast.Decimal.Layout
import Recast.Json.Value

set_option autoImplicit false

/-!
# Compact JSON

The written form has no blanks, leaves every character above the controls unescaped, and writes
doubles with the fewest digits that read back.
-/

namespace Recast.Json

def hexDigit (digit : Nat) : Char :=
  Nat.digitChar digit

def escapeChar (char : Char) : List Char :=
  if char = '"' then ['\\', '"']
  else if char = '\\' then ['\\', '\\']
  else if char = '\n' then ['\\', 'n']
  else if char = '\r' then ['\\', 'r']
  else if char = '\t' then ['\\', 't']
  else if char = '\x08' then ['\\', 'b']
  else if char = '\x0c' then ['\\', 'f']
  else if char.toNat < 0x20 then
    ['\\', 'u', '0', '0', hexDigit (char.toNat / 16), hexDigit (char.toNat % 16)]
  else [char]

def quoted (text : List Char) : List Char :=
  '"' :: text.flatMap escapeChar ++ ['"']

/-- Doubles: what is not a number or not finite has no JSON form and is written as null. -/
def doubles : Decimal.Layout where
  isPositional := Decimal.isMidRange
  signedExponent := true
  nan := "null"
  infinity := "null"
  negativeInfinity := "null"

mutual

def Value.write : Value → List Char
  | .null => ['n', 'u', 'l', 'l']
  | .bool true => ['t', 'r', 'u', 'e']
  | .bool false => ['f', 'a', 'l', 's', 'e']
  | .int number => Decimal.intText number
  | .float number => doubles.write number
  | .text content => quoted content.toList
  | .array items => '[' :: (writeItems items ++ [']'])
  | .object entries => '{' :: (writeEntries entries ++ ['}'])

def writeItems : List Value → List Char
  | [] => []
  | item :: rest => item.write ++ writeMoreItems rest

def writeMoreItems : List Value → List Char
  | [] => []
  | item :: rest => ',' :: (item.write ++ writeMoreItems rest)

def writeEntries : List (String × Value) → List Char
  | [] => []
  | (key, value) :: rest => quoted key.toList ++ ':' :: (value.write ++ writeMoreEntries rest)

def writeMoreEntries : List (String × Value) → List Char
  | [] => []
  | (key, value) :: rest =>
    ',' :: (quoted key.toList ++ ':' :: (value.write ++ writeMoreEntries rest))

end

def Value.render (value : Value) : String :=
  String.ofList value.write

/-- Text in place of a value: strings stand for themselves, null for nothing, and everything else
for its compact JSON. -/
def Value.asText : Value → String
  | .text content => content
  | .null => ""
  | value => value.render

mutual

/-- Indented JSON: two blanks per level, one entry a line, empty containers closed at once. -/
def Value.writeIndented (indent : Nat) : Value → List Char
  | .array [] => ['[', ']']
  | .array (item :: rest) =>
    '[' :: '\n' :: (indentedItems (indent + 2) (item :: rest) ++
      '\n' :: List.replicate indent ' ' ++ [']'])
  | .object [] => ['{', '}']
  | .object (entry :: rest) =>
    '{' :: '\n' :: (indentedEntries (indent + 2) (entry :: rest) ++
      '\n' :: List.replicate indent ' ' ++ ['}'])
  | .null => Value.null.write
  | .bool flag => (Value.bool flag).write
  | .int number => (Value.int number).write
  | .float number => (Value.float number).write
  | .text content => (Value.text content).write

def indentedItems (indent : Nat) : List Value → List Char
  | [] => []
  | item :: rest =>
    List.replicate indent ' ' ++ item.writeIndented indent ++
      (if rest.isEmpty then [] else [',', '\n']) ++ indentedItems indent rest

def indentedEntries (indent : Nat) : List (String × Value) → List Char
  | [] => []
  | (key, value) :: rest =>
    List.replicate indent ' ' ++ quoted key.toList ++ ':' :: ' ' :: value.writeIndented indent ++
      (if rest.isEmpty then [] else [',', '\n']) ++ indentedEntries indent rest

end

def Value.renderIndented (value : Value) : String :=
  String.ofList (value.writeIndented 0)

end Recast.Json
