import Recast.Text.Search
import Recast.Yaml.Value

set_option autoImplicit false

/-!
# Writing texts in YAML

A text is written plain if it reads back as that text, else between single quotes, else between
double quotes with escapes. A text of several lines is written as a literal block unless the block
would lose something.
-/

namespace Recast.Yaml

def isPrintable (char : Char) : Bool :=
  let code := char.toNat
  code == 10 || (0x20 ≤ code && code ≤ 0x7E) ||
    (0xA0 ≤ code && code ≤ 0xFFFD && code != 0xFEFF)

def hasPair (isFirst isSecond : Char → Bool) : List Char → Bool
  | first :: second :: rest =>
    (isFirst first && isSecond second) || hasPair isFirst isSecond (second :: rest)
  | _ => false

def isLeadIndicator (char : Char) : Bool :=
  "#,[]\x7b\x7d&*!|>'\"%@\x60".toList.contains char

def isSpacedIndicator (char : Char) : Bool :=
  char == '?' || char == ':' || char == '-'

def hasIndicatorStart (text : List Char) : Bool :=
  match text with
  | [] => false
  | char :: rest =>
    isLeadIndicator char || (isSpacedIndicator char && isGap rest.head?) ||
      ['-', '-', '-'].isPrefixOf text || ['.', '.', '.'].isPrefixOf text

def hasInnerIndicator (text : List Char) : Bool :=
  let isBlankOrBreak (char : Char) : Bool := isSpaceOrTab char || isBreak char
  hasPair (· == ':') isBlankOrBreak text || text.getLast? == some ':' ||
    hasPair isBlankOrBreak (· == '#') text

def isEdgeGap (char : Option Char) : Bool :=
  match char with
  | some char => char == ' ' || isBreak char
  | none => false

/-- Every character can be written without an escape, and no space touches the end of a line. -/
def isEscapeFree (text : List Char) : Bool :=
  text.all isPrintable && !hasPair (· == ' ') isBreak text

def allowsPlain (text : List Char) : Bool :=
  isEscapeFree text && !text.any isBreak && !hasIndicatorStart text &&
    !hasInnerIndicator text && !isEdgeGap text.head? && !isEdgeGap text.getLast?

def allowsSingleQuotes (text : List Char) : Bool :=
  isEscapeFree text && !hasPair isBreak (· == ' ') text

def allowsBlock (text : List Char) : Bool :=
  isEscapeFree text && text.getLast? != some ' '

def readsAsText (text : List Char) : Bool :=
  match plainValue? (String.ofList text) with
  | some (.text _) => !isPaddedNumber text
  | _ => false

/-- Lines with an indentation; `fresh` tells that a line has just been begun. -/
def indentLines (indent : Nat) (fresh : Bool) : List Char → List Char
  | [] => []
  | char :: rest =>
    if isBreak char then char :: indentLines indent true rest
    else if fresh then List.replicate indent ' ' ++ char :: indentLines indent false rest
    else char :: indentLines indent false rest

def endsLine (text : List Char) : Bool :=
  (text.getLast?.map isBreak).getD false

def singleQuoted (indent : Nat) (text : List Char) : List Char :=
  let doubled := text.flatMap fun char => if char = '\'' then ['\'', '\''] else [char]
  let tail := if endsLine text then List.replicate indent ' ' else []
  '\'' :: indentLines indent false doubled ++ tail ++ ['\'']

def hexDigits (width : Nat) (number : Nat) : List Char :=
  (List.range width).reverse.map fun place =>
    (Nat.digitChar (number / Nat.pow 16 place % 16)).toUpper

def shortEscape? (char : Char) : Option Char :=
  match char.toNat with
  | 0x00 => some '0'
  | 0x07 => some 'a'
  | 0x08 => some 'b'
  | 0x09 => some 't'
  | 0x0A => some 'n'
  | 0x0B => some 'v'
  | 0x0C => some 'f'
  | 0x0D => some 'r'
  | 0x1B => some 'e'
  | 0x22 => some '"'
  | 0x5C => some '\\'
  | 0x85 => some 'N'
  | 0x2028 => some 'L'
  | 0x2029 => some 'P'
  | _ => none

def doubleQuotedChar (char : Char) : List Char :=
  match shortEscape? char with
  | some letter => ['\\', letter]
  | none =>
    let code := char.toNat
    if isPrintable char then [char]
    else if code ≤ 0xFF then '\\' :: 'x' :: hexDigits 2 code
    else if code ≤ 0xFFFF then '\\' :: 'u' :: hexDigits 4 code
    else '\\' :: 'U' :: hexDigits 8 code

def doubleQuoted (text : List Char) : List Char :=
  '"' :: text.flatMap doubleQuotedChar ++ ['"']

/-- The mark of a literal block that says how it ends: without a break, with one, or with
several. -/
def chompingMark (text : List Char) : List Char :=
  match text.reverse with
  | last :: before =>
    if isBreak last then
      match before with
      | [] => ['+']
      | previous :: _ => if isBreak previous then ['+'] else []
    else ['-']
  | [] => ['-']

/-- A literal block. Its indentation is stated if it cannot be seen from the first line. -/
def literalBlock (indent : Nat) (text : List Char) : List Char :=
  let hint := if isEdgeGap text.head? then ['2'] else []
  '|' :: hint ++ chompingMark text ++ '\n' :: indentLines indent true text

def quotedText (indent : Nat) (text : List Char) : List Char :=
  if allowsSingleQuotes text then singleQuoted indent text else doubleQuoted text

def writeText (indent : Nat) (text : List Char) : List Char :=
  if text.contains '\n' then
    if allowsBlock text then literalBlock indent text else doubleQuoted text
  else if readsAsText text && allowsPlain text then text
  else quotedText indent text

def endLine (text : List Char) : List Char :=
  if endsLine text then text else text ++ ['\n']

def maxKeyBytes : Nat := 128

/-- A key and its text, in a mapping at an indentation. A key that is long or has several lines
is marked with a question mark. -/
def writeEntry (indent : Nat) (key value : List Char) : List Char :=
  let blanks := List.replicate indent ' '
  let content := endLine (writeText (indent + 2) value)
  if key.any isBreak || maxKeyBytes < Text.byteCount key then
    blanks ++ '?' :: ' ' :: endLine (writeText (indent + 2) key) ++ blanks ++ ':' :: ' ' :: content
  else blanks ++ writeText (indent + 2) key ++ ':' :: ' ' :: content

def writeItem (item : List Char) : List Char :=
  '-' :: ' ' :: endLine (writeText 2 item)

end Recast.Yaml
