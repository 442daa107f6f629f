import Recast.Json.Reader

set_option autoImplicit false

/-!
# Skipping JSON

A value that nobody needs is only checked for its grammar. It may nest without limit, its numbers
may have any size, and its texts may name halves of surrogate pairs.
-/

namespace Recast.Json

def skipText : Nat → List Char → Except Fault (List Char)
  | 0, _ => .error .truncated
  | _ + 1, [] => .error .truncated
  | _ + 1, '"' :: rest => .ok rest
  | _ + 1, '\\' :: [] => .error .truncated
  | fuel + 1, '\\' :: 'u' :: rest => do
    let (_, rest) ← readHex4 rest
    skipText fuel rest
  | fuel + 1, '\\' :: char :: rest =>
    if (shortEscape? char).isSome then skipText fuel rest else .error .malformed
  | fuel + 1, char :: rest =>
    if char.toNat < 0x20 then .error .malformed else skipText fuel rest

def skipDigits (input : List Char) : Except Fault (List Char) :=
  if (input.takeWhile Char.isDigit).isEmpty then .error .malformed
  else .ok (input.dropWhile Char.isDigit)

def skipExponent (input : List Char) : Except Fault (List Char) :=
  match input with
  | mark :: rest =>
    if isExponentMark mark then
      match rest with
      | '+' :: rest => skipDigits rest
      | '-' :: rest => skipDigits rest
      | rest => skipDigits rest
    else .ok input
  | [] => .ok input

def skipNumber (input : List Char) : Except Fault (List Char) := do
  let digits := input.takeWhile Char.isDigit
  let rest ← skipDigits input
  match digits with
  | '0' :: _ :: _ => .error .malformed
  | _ =>
    match rest with
    | '.' :: rest => do
      let rest ← skipDigits rest
      skipExponent rest
    | rest => skipExponent rest

mutual

def skipValue : Nat → List Char → Except Fault (List Char)
  | 0, _ => .error .truncated
  | fuel + 1, input =>
    match skipBlanks input with
    | [] => .error .truncated
    | 'n' :: rest => readWord ['u', 'l', 'l'] rest
    | 't' :: rest => readWord ['r', 'u', 'e'] rest
    | 'f' :: rest => readWord ['a', 'l', 's', 'e'] rest
    | '"' :: rest => skipText (rest.length + 1) rest
    | '-' :: rest => skipNumber rest
    | '[' :: rest =>
      match skipBlanks rest with
      | ']' :: rest => .ok rest
      | rest => do
        let rest ← skipValue fuel rest
        skipMoreItems fuel rest
    | '{' :: rest =>
      match skipBlanks rest with
      | '}' :: rest => .ok rest
      | rest => skipMember fuel rest
    | char :: rest => if char.isDigit then skipNumber (char :: rest) else .error .malformed

def skipMoreItems : Nat → List Char → Except Fault (List Char)
  | 0, _ => .error .truncated
  | fuel + 1, input =>
    match skipBlanks input with
    | [] => .error .truncated
    | ']' :: rest => .ok rest
    | ',' :: rest => do
      let rest ← skipValue fuel rest
      skipMoreItems fuel rest
    | _ :: _ => .error .malformed

def skipMember : Nat → List Char → Except Fault (List Char)
  | 0, _ => .error .truncated
  | fuel + 1, input =>
    match skipBlanks input with
    | [] => .error .truncated
    | '"' :: rest => do
      let rest ← skipText (rest.length + 1) rest
      let rest ← readColon rest
      let rest ← skipValue fuel rest
      match skipBlanks rest with
      | [] => .error .truncated
      | '}' :: rest => .ok rest
      | ',' :: rest => skipMember fuel rest
      | _ :: _ => .error .malformed
    | _ :: _ => .error .malformed

end

end Recast.Json
