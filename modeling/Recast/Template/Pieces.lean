set_option autoImplicit false

/-!
# Placeholders in templates

A placeholder is a name in braces after a dollar sign, with an optional index in brackets, or a
name in capitals between double underscores. A template is cut into placeholders and the text
between them, each placeholder as long as it can be.
-/

namespace Recast.Template

inductive Piece where
  | literal (text : String)
  | placeholder (token : String)
deriving Repr, DecidableEq

def isNameChar (char : Char) : Bool :=
  ('a' ≤ char && char ≤ 'z') || char == '_'

def isLegacyChar (char : Char) : Bool :=
  ('A' ≤ char && char ≤ 'Z') || char == '_'

def indexLength? (input : List Char) : Option Nat :=
  match input with
  | '[' :: rest =>
    let (sign, rest) :=
      match rest with
      | '-' :: rest => (1, rest)
      | _ => (0, rest)
    let digits := rest.takeWhile Char.isDigit
    match digits, rest.drop digits.length with
    | _ :: _, ']' :: _ => some (1 + sign + digits.length + 1)
    | _, _ => none
  | _ => none

def bracedLength? (input : List Char) : Option Nat :=
  match input with
  | '$' :: '\x7b' :: rest =>
    let name := rest.takeWhile isNameChar
    if name.isEmpty then none
    else
      let rest := rest.drop name.length
      let index := (indexLength? rest).getD 0
      match rest.drop index with
      | '\x7d' :: _ => some (2 + name.length + index + 1)
      | _ => none
  | _ => none

def lastPair? (position : Nat) : List Char → Option Nat
  | [] => none
  | char :: rest =>
    match lastPair? (position + 1) rest with
    | some found => some found
    | none => if char = '_' && rest.head? = some '_' then some position else none

def legacyLength? (input : List Char) : Option Nat :=
  match input with
  | '_' :: '_' :: rest =>
    match rest.takeWhile isLegacyChar with
    | [] => none
    | _ :: more => (lastPair? 1 more).map fun position => 2 + position + 2
  | _ => none

def wordLength? (input : List Char) : Option Nat :=
  (bracedLength? input).orElse fun _ => legacyLength? input

/-- A literal, unless it is empty. `text` is in reverse. -/
def literalOf (text : List Char) : List Piece :=
  if text.isEmpty then [] else [.literal (String.ofList text.reverse)]

/-- The pieces of a text after `text`, which is in reverse. `skip` counts characters of a
placeholder that has been taken. -/
def piecesFrom (text : List Char) (skip : Nat) : List Char → List Piece
  | [] => literalOf text
  | char :: rest =>
    match skip with
    | skip + 1 => piecesFrom text skip rest
    | 0 =>
      match wordLength? (char :: rest) with
      | some length =>
        literalOf text ++
          .placeholder (String.ofList ((char :: rest).take length)) ::
            piecesFrom [] (length - 1) rest
      | none => piecesFrom (char :: text) 0 rest

def pieces (source : String) : List Piece :=
  piecesFrom [] 0 source.toList

def single? : List Piece → Option String
  | [.placeholder token] => some token
  | _ => none

theorem eq_of_single? {pieces : List Piece} {token : String}
    (single : single? pieces = some token) : pieces = [.placeholder token] := by
  unfold single? at single
  split at single
  next => rw [Option.some.inj single]
  next => cases single

end Recast.Template
