import Recast.Json.Number
import Recast.Text.Search

set_option autoImplicit false

/-!
# Reading JSON

A value is read from the front of a text. At most 127 containers may be open at once. Fuel bounds
the recursion; three times the length of the text and three more always suffice.
-/

namespace Recast.Json

def isJsonBlank (char : Char) : Bool :=
  char == ' ' || char == '\n' || char == '\t' || char == '\r'

def skipBlanks (input : List Char) : List Char :=
  input.dropWhile isJsonBlank

def hexValue? (char : Char) : Option Nat :=
  if '0' ≤ char && char ≤ '9' then some (char.toNat - '0'.toNat)
  else if 'a' ≤ char && char ≤ 'f' then some (char.toNat - 'a'.toNat + 10)
  else if 'A' ≤ char && char ≤ 'F' then some (char.toNat - 'A'.toNat + 10)
  else none

/-- Four hexadecimal digits. The text ends early if fewer than four bytes are left. -/
def readHex4 (input : List Char) : Except Fault (Nat × List Char) :=
  match input with
  | a :: b :: c :: d :: rest =>
    match hexValue? a, hexValue? b, hexValue? c, hexValue? d with
    | some a, some b, some c, some d => .ok (((a * 16 + b) * 16 + c) * 16 + d, rest)
    | _, _, _, _ => .error .malformed
  | _ => .error (if Text.byteCount input < 4 then .truncated else .malformed)

def isLowSurrogate (code : Nat) : Bool :=
  0xDC00 ≤ code && code ≤ 0xDFFF

def isHighSurrogate (code : Nat) : Bool :=
  0xD800 ≤ code && code ≤ 0xDBFF

/-- A character by its number; a first half must be followed by a second half. -/
def readCodePoint (input : List Char) : Except Fault (Char × List Char) := do
  let (high, rest) ← readHex4 input
  if isLowSurrogate high then .error .malformed
  else if isHighSurrogate high then
    match rest with
    | [] => .error .truncated
    | '\\' :: [] => .error .truncated
    | '\\' :: 'u' :: rest =>
      let (low, rest) ← readHex4 rest
      if isLowSurrogate low then
        .ok (Char.ofNat ((high - 0xD800) * 1024 + (low - 0xDC00) + 0x10000), rest)
      else .error .malformed
    | _ => .error .malformed
  else .ok (Char.ofNat high, rest)

def shortEscape? (char : Char) : Option Char :=
  match char with
  | '"' => some '"'
  | '\\' => some '\\'
  | '/' => some '/'
  | 'b' => some '\x08'
  | 'f' => some '\x0c'
  | 'n' => some '\n'
  | 'r' => some '\r'
  | 't' => some '\t'
  | _ => none

def readEscape : List Char → Except Fault (Char × List Char)
  | [] => .error .truncated
  | 'u' :: rest => readCodePoint rest
  | char :: rest =>
    match shortEscape? char with
    | some meaning => .ok (meaning, rest)
    | none => .error .malformed

def readText : Nat → List Char → Except Fault (List Char × List Char)
  | 0, _ => .error .truncated
  | _ + 1, [] => .error .truncated
  | _ + 1, '"' :: rest => .ok ([], rest)
  | fuel + 1, '\\' :: rest => do
    let (char, rest) ← readEscape rest
    let (text, rest) ← readText fuel rest
    .ok (char :: text, rest)
  | fuel + 1, char :: rest =>
    if char.toNat < 0x20 then .error .malformed
    else do
      let (text, rest) ← readText fuel rest
      .ok (char :: text, rest)

def readQuoted (input : List Char) : Except Fault (List Char × List Char) :=
  readText (input.length + 1) input

def readWord : List Char → List Char → Except Fault (List Char)
  | [], rest => .ok rest
  | _ :: _, [] => .error .truncated
  | expected :: word, char :: rest =>
    if expected = char then readWord word rest else .error .malformed

def readColon (input : List Char) : Except Fault (List Char) :=
  match skipBlanks input with
  | [] => .error .truncated
  | ':' :: rest => .ok rest
  | _ :: _ => .error .malformed

mutual

def readValue : Nat → Nat → List Char → Except Fault (Value × List Char)
  | 0, _, _ => .error .truncated
  | fuel + 1, room, input =>
    match skipBlanks input with
    | [] => .error .truncated
    | 'n' :: rest => (readWord ['u', 'l', 'l'] rest).map (fun rest => (.null, rest))
    | 't' :: rest => (readWord ['r', 'u', 'e'] rest).map (fun rest => (.bool true, rest))
    | 'f' :: rest => (readWord ['a', 'l', 's', 'e'] rest).map (fun rest => (.bool false, rest))
    | '"' :: rest => (readQuoted rest).map (fun found => (.text (String.ofList found.1), found.2))
    | '-' :: rest => (readNumber true rest).map (fun found => (found.1.toValue, found.2))
    | '[' :: rest =>
      match room with
      | 0 => .error .malformed
      | room + 1 => (readItems fuel room rest).map (fun found => (.array found.1, found.2))
    | '{' :: rest =>
      match room with
      | 0 => .error .malformed
      | room + 1 =>
        (readEntries fuel room rest).map (fun found => (.object (Assoc.ofPairs found.1), found.2))
    | char :: rest =>
      if char.isDigit then
        (readNumber false (char :: rest)).map (fun found => (found.1.toValue, found.2))
      else .error .malformed

def readItems : Nat → Nat → List Char → Except Fault (List Value × List Char)
  | 0, _, _ => .error .truncated
  | fuel + 1, room, input =>
    match skipBlanks input with
    | ']' :: rest => .ok ([], rest)
    | _ => do
      let (item, rest) ← readValue fuel room input
      let (items, rest) ← readMoreItems fuel room rest
      .ok (item :: items, rest)

def readMoreItems : Nat → Nat → List Char → Except Fault (List Value × List Char)
  | 0, _, _ => .error .truncated
  | fuel + 1, room, input =>
    match skipBlanks input with
    | [] => .error .truncated
    | ']' :: rest => .ok ([], rest)
    | ',' :: rest => do
      let (item, rest) ← readValue fuel room rest
      let (items, rest) ← readMoreItems fuel room rest
      .ok (item :: items, rest)
    | _ :: _ => .error .malformed

def readEntries : Nat → Nat → List Char → Except Fault (List (String × Value) × List Char)
  | 0, _, _ => .error .truncated
  | fuel + 1, room, input =>
    match skipBlanks input with
    | [] => .error .truncated
    | '}' :: rest => .ok ([], rest)
    | '"' :: rest => readEntry fuel room rest
    | _ :: _ => .error .malformed

def readEntry : Nat → Nat → List Char → Except Fault (List (String × Value) × List Char)
  | 0, _, _ => .error .truncated
  | fuel + 1, room, input => do
    let (key, rest) ← readQuoted input
    let rest ← readColon rest
    let (value, rest) ← readValue fuel room rest
    let (entries, rest) ← readMoreEntries fuel room rest
    .ok ((String.ofList key, value) :: entries, rest)

def readMoreEntries : Nat → Nat → List Char → Except Fault (List (String × Value) × List Char)
  | 0, _, _ => .error .truncated
  | fuel + 1, room, input =>
    match skipBlanks input with
    | [] => .error .truncated
    | '}' :: rest => .ok ([], rest)
    | ',' :: rest =>
      match skipBlanks rest with
      | [] => .error .truncated
      | '"' :: rest => readEntry fuel room rest
      | _ :: _ => .error .malformed
    | _ :: _ => .error .malformed

end

/-- Fuel that suffices for a text: three steps for each character, and three to begin with. -/
def fuelFor (input : List Char) : Nat :=
  3 * input.length + 3

def maxDepth : Nat := 127

def readEnd (input : List Char) : Except Fault Unit :=
  if (skipBlanks input).isEmpty then .ok () else .error .malformed

def read (input : List Char) : Except Fault Value := do
  let (value, rest) ← readValue (fuelFor input) maxDepth input
  readEnd rest
  .ok value

def readObject (input : List Char) : Except Fault (List (String × Value)) := do
  match ← read input with
  | .object entries => .ok entries
  | _ => .error .mismatched

end Recast.Json
