set_option autoImplicit false

/-!
# Reading YAML character by character

A cursor knows the characters that are left and where they stand. Reading happens in a monad that
may fail; which of several faults a text has makes no difference.
-/

namespace Recast.Yaml

structure Cursor where
  rest : List Char
  index : Nat
  line : Nat
  column : Nat
deriving Repr

def isBreak (char : Char) : Bool :=
  char == '\r' || char == '\n' || char == '\u0085' || char == '\u2028' || char == '\u2029'

def isSpaceOrTab (char : Char) : Bool :=
  char == ' ' || char == '\t'

def isGap (char : Option Char) : Bool :=
  match char with
  | none => true
  | some char => isSpaceOrTab char || isBreak char

def isLineEnd (char : Option Char) : Bool :=
  match char with
  | none => true
  | some char => isBreak char

def isWordChar (char : Char) : Bool :=
  char.isAlphanum || char == '_' || char == '-'

def isAllowed (char : Char) : Bool :=
  let code := char.toNat
  code == 9 || code == 10 || code == 13 || (0x20 ≤ code && code ≤ 0x7E) || code == 0x85 ||
    (0xA0 ≤ code && code ≤ 0xFFFD) || 0x10000 ≤ code

abbrev Reading := StateT Cursor Option

def refuse {α : Type} : Reading α :=
  fun _ => none

def require (condition : Bool) : Reading Unit :=
  if condition then pure () else refuse

def charAt (offset : Nat) : Reading (Option Char) :=
  fun cursor => some ((cursor.rest.drop offset).head?, cursor)

def isAt (char : Char) : Reading Bool :=
  fun cursor => some (cursor.rest.head? == some char, cursor)

def Cursor.next (cursor : Cursor) : Cursor :=
  ⟨cursor.rest.drop 1, cursor.index + 1, cursor.line, cursor.column + 1⟩

def advance : Reading Unit :=
  fun cursor => some ((), cursor.next)

def advanceBy (count : Nat) : Reading Unit :=
  fun cursor =>
    some ((), ⟨cursor.rest.drop count, cursor.index + count, cursor.line, cursor.column + count⟩)

/-- Moves past a line break and gives its text: a line feed for all but the separators. -/
def takeBreak : Reading (List Char) :=
  fun cursor =>
    let after (rest : List Char) (count : Nat) : Cursor :=
      ⟨rest, cursor.index + count, cursor.line + 1, 0⟩
    match cursor.rest with
    | '\r' :: '\n' :: rest => some (['\n'], after rest 2)
    | '\u2028' :: rest => some (['\u2028'], after rest 1)
    | '\u2029' :: rest => some (['\u2029'], after rest 1)
    | char :: rest => if isBreak char then some (['\n'], after rest 1) else some ([], cursor)
    | [] => some ([], cursor)

def takeWhile (belongs : Char → Bool) : Reading (List Char) :=
  fun cursor =>
    let taken := cursor.rest.takeWhile belongs
    some (taken, ⟨cursor.rest.drop taken.length, cursor.index + taken.length, cursor.line,
      cursor.column + taken.length⟩)

def columnNow : Reading Nat :=
  fun cursor => some (cursor.column, cursor)

def remaining : Reading Nat :=
  fun cursor => some (cursor.rest.length, cursor)

def atMarker : Reading Bool :=
  fun cursor =>
    let found :=
      cursor.column == 0 &&
        (cursor.rest.take 3 == ['-', '-', '-'] || cursor.rest.take 3 == ['.', '.', '.']) &&
        isGap (cursor.rest.drop 3).head?
    some (found, cursor)

end Recast.Yaml
