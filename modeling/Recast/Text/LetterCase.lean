import Recast.Text.CaseTable

set_option autoImplicit false

/-!
# Letter case

Upper and lower case forms of text. A form may be longer than its character, and a capital sigma
at the end of a word has a lower case form of its own.
-/

namespace Recast.Text

/-- The case form of one character: a special form, else the distance of its run, else itself. -/
def caseForm (runs : List CaseRun) (specials : List (Nat × List Nat)) (char : Char) : List Char :=
  match specials.lookup char.toNat with
  | some codes => codes.map Char.ofNat
  | none =>
    match runs.find? (fun run => run.maps char.toNat) with
    | some run => [Char.ofNat (Int.ofNat char.toNat + run.distance).toNat]
    | none => [char]

def upperForm (char : Char) : List Char :=
  caseForm upperRuns upperSpecials char

def lowerForm (char : Char) : List Char :=
  caseForm lowerRuns lowerSpecials char

def isCased (char : Char) : Bool :=
  upperForm char != [char] || lowerForm char != [char]

/-- Marks that do not end a word: apostrophes, points, and combining marks. -/
def isCaseIgnorable (char : Char) : Bool :=
  let code := char.toNat
  [0x27, 0x2E, 0x3A, 0x5E, 0x60, 0xA8, 0xAD, 0xAF, 0xB4, 0xB7, 0xB8, 0x2019].contains code ||
    (0x300 ≤ code && code ≤ 0x36F)

def startsCased (text : List Char) : Bool :=
  match text.dropWhile isCaseIgnorable with
  | char :: _ => isCased char
  | [] => false

def lowerFrom (before : List Char) : List Char → List Char
  | [] => []
  | char :: rest =>
    let form :=
      if char = 'Σ' then
        if startsCased before && !startsCased rest then ['ς'] else ['σ']
      else lowerForm char
    form ++ lowerFrom (char :: before) rest

def upper (text : List Char) : List Char :=
  text.flatMap upperForm

def lower (text : List Char) : List Char :=
  lowerFrom [] text

end Recast.Text
