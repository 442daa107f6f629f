import Recast.Script.Token
import Recast.Text.Blank

set_option autoImplicit false

/-!
# From text to tokens

Every function takes the text that is left and gives what it read with the text after it. Fuel is
the length of the text. `none` means that the text is no sequence of tokens.
-/

namespace Recast.Script

def takeDigits (isDigit : Char → Bool) : List Char → List Char × List Char
  | [] => ([], [])
  | char :: rest =>
    if char == '_' then takeDigits isDigit rest
    else if isDigit char then
      let (digits, rest) := takeDigits isDigit rest
      (char :: digits, rest)
    else ([], char :: rest)

def baseValue (base : Nat) (digits : List Char) : Nat :=
  digits.foldl (fun total digit => total * base + (Json.hexValue? digit).getD 0) 0

def wrapInt (number : Nat) : Int :=
  if number ≤ Json.maxSigned then Int.ofNat number else Int.ofNat number - Json.maxUnsigned - 1

def lexBase (base : Nat) (negative : Bool) (input : List Char) : Option (Token × List Char) :=
  let isDigit (char : Char) : Bool :=
    match Json.hexValue? char with
    | some value => value < base
    | none => false
  let (digits, rest) := takeDigits isDigit input
  let value := baseValue base digits
  if digits.isEmpty || Json.maxUnsigned < value then none
  else
    let number := wrapInt value
    some (.int (if negative && isInt (-number) then -number else number), rest)

def baseMark? (char : Char) : Option Nat :=
  match char with
  | 'x' => some 16
  | 'X' => some 16
  | 'o' => some 8
  | 'O' => some 8
  | 'b' => some 2
  | 'B' => some 2
  | _ => none

def lexFraction (input : List Char) : Option (List Char) × List Char :=
  match input with
  | '.' :: next :: rest =>
    if next.isDigit then
      let (digits, rest) := takeDigits Char.isDigit (next :: rest)
      (some digits, rest)
    else if isNameStart next || next == '.' then (none, input)
    else (some ['0'], next :: rest)
  | _ => (none, input)

def lexExponent (input : List Char) : Option (List Char) × List Char :=
  match input with
  | 'e' :: next :: rest =>
    if next.isDigit then
      let (digits, rest) := takeDigits Char.isDigit (next :: rest)
      (some digits, rest)
    else if next == '+' || next == '-' then
      let (digits, rest) := takeDigits Char.isDigit rest
      (some (next :: digits), rest)
    else (none, input)
  | _ => (none, input)

/-- A decimal number. An integer out of range is a double. -/
def lexDecimal (negative : Bool) (input : List Char) : Option (Token × List Char) :=
  let (whole, rest) := takeDigits Char.isDigit input
  let (fraction, rest) := lexFraction rest
  let (exponent, rest) := lexExponent rest
  let sign := if negative then ['-'] else []
  let number := Int.ofNat (Decimal.digitsValue whole)
  let signed := if negative then -number else number
  -- a second point makes no number
  let again := fraction.isSome && (lexFraction rest).1.isSome
  if again then none
  else if fraction.isNone && exponent.isNone && isInt signed then some (.int signed, rest)
  else
    let mantissa := sign ++ whole ++ (fraction.elim [] ('.' :: ·))
    (Decimal.double? (mantissa ++ exponent.elim [] ('e' :: ·))).map fun value =>
      (.float value, rest)

def lexNumber (negative : Bool) (input : List Char) : Option (Token × List Char) :=
  match input with
  | '0' :: mark :: rest =>
    match baseMark? mark with
    | some base => lexBase base negative rest
    | none => lexDecimal negative input
  | _ => lexDecimal negative input

def lexCode (count : Nat) (input : List Char) : Option (Char × List Char) :=
  let digits := input.take count
  if digits.length < count || !digits.all (fun digit => (Json.hexValue? digit).isSome) then none
  else
    let code := baseValue 16 digits
    if code < 0xD800 || (0xDFFF < code && code ≤ 0x10FFFF) then
      some (Char.ofNat code, input.drop count)
    else none

/-- A text up to its closing quote. A doubled quote stands for one, and a backslash before the
end of a line joins the next line without its indentation. -/
def lexQuoted (quote : Char) : Nat → List Char → Option (List Char × List Char)
  | 0, _ => none
  | _ + 1, [] => none
  | fuel + 1, '\\' :: rest =>
    let add (char : Char) (rest : List Char) :=
      (lexQuoted quote fuel rest).map fun found => (char :: found.1, found.2)
    match rest with
    | [] => none
    | 't' :: rest => add '\t' rest
    | 'n' :: rest => add '\n' rest
    | 'r' :: rest => add '\r' rest
    | 'x' :: rest => (lexCode 2 rest).bind fun found => add found.1 found.2
    | 'u' :: rest => (lexCode 4 rest).bind fun found => add found.1 found.2
    | 'U' :: rest => (lexCode 8 rest).bind fun found => add found.1 found.2
    | '\\' :: rest => add '\\' rest
    | '\n' :: rest =>
      if quote == '"' then lexQuoted quote fuel (rest.dropWhile Text.isBlank) else none
    | char :: rest => if char == quote then add quote rest else none
  | fuel + 1, char :: rest =>
    let add (rest : List Char) :=
      (lexQuoted quote fuel rest).map fun found => (char :: found.1, found.2)
    if char == quote then
      match rest with
      | next :: after => if next == quote then add after else some ([], rest)
      | [] => some ([], rest)
    else if char == '\n' then none
    else add rest

/-- A text between back-ticks up to its end or its next hole. The flag tells that a hole
follows. A backslash before the opening of a hole makes it plain text, and is dropped. -/
def lexPart : Nat → List Char → Option (List Char × Bool × List Char)
  | 0, _ => none
  | _ + 1, [] => none
  | fuel + 1, char :: rest =>
    let add (char : Char) (rest : List Char) :=
      (lexPart fuel rest).map fun found => (char :: found.1, found.2)
    match char, rest with
    | '\x60', '\x60' :: rest => add '\x60' rest
    | '\x60', rest => some ([], false, rest)
    | '\\', '$' :: '\x7b' :: rest => add '$' ('\x7b' :: rest)
    | '$', '\x7b' :: rest => some ([], true, rest)
    | '\r', '\n' :: rest => add '\n' rest
    | char, rest => add char rest

def dropLineBreak : List Char → List Char
  | '\r' :: '\n' :: rest => rest
  | '\r' :: rest => rest
  | '\n' :: rest => rest
  | input => input

/-- Skips a comment in its delimiters; comments may nest. -/
def skipComment : Nat → Nat → List Char → List Char
  | 0, _, input => input
  | _ + 1, _, [] => []
  | fuel + 1, depth, '*' :: '/' :: rest =>
    match depth with
    | 0 => rest
    | depth + 1 => skipComment fuel depth rest
  | fuel + 1, depth, '/' :: '*' :: rest => skipComment fuel (depth + 1) rest
  | fuel + 1, depth, _ :: rest => skipComment fuel depth rest

def leading? (signs : List String) (input : List Char) : Option (String × List Char) :=
  signs.findSome? fun sign => (Text.afterStart? sign.toList input).map fun rest => (sign, rest)

def notIn? (input : List Char) : Option (List Char) :=
  match input with
  | '!' :: 'i' :: 'n' :: rest =>
    match rest with
    | char :: _ => if isNamePart char then none else some rest
    | [] => some rest
  | _ => none

/-- What has been read at one place: its tokens, the open braces of every open hole, the innermost
first, whether the last token ended an operand, and the text that is left. -/
structure Reading where
  tokens : List Token
  holes : List Nat
  operand : Bool
  rest : List Char

def Reading.single (holes : List Nat) (found : Token × List Char) : Reading :=
  ⟨[found.1], holes, found.1.endsOperand, found.2⟩

def Reading.skip (holes : List Nat) (operand : Bool) (rest : List Char) : Reading :=
  ⟨[], holes, operand, rest⟩

def lexText (holes : List Nat) (input : List Char) : Option Reading :=
  (lexPart (input.length + 1) input).map fun (content, more, rest) =>
    let token := Token.part (String.ofList content) more
    if more then ⟨[token, .symbol "\x7b"], 1 :: holes, false, rest⟩
    else ⟨[token], holes, true, rest⟩

def lexWord (holes : List Nat) (input : List Char) : Option Reading :=
  let word := input.takeWhile isNamePart
  (wordToken? word).map fun token => .single holes (token, input.drop word.length)

def lexLetter (holes : List Nat) (input : List Char) : Option Reading :=
  if input.head? = some '\'' then none
  else
    (lexQuoted '\'' (input.length + 1) input).bind fun found =>
      match found.1 with
      | [letter] => some (.single holes (.char letter, found.2))
      | _ => none

/-- What stands in a raw text, up to the first place where it is closed, and the text after it. -/
def lexRawEnd (closing : List Char) : List Char → Option (List Char × List Char)
  | [] => none
  | char :: rest =>
    match Text.afterStart? closing (char :: rest) with
    | some left => some ([], left)
    | none => (lexRawEnd closing rest).map fun found => (char :: found.1, found.2)

/-- A raw text after its first number sign. Its closing quote has as many of them behind it as stand
before its opening one. -/
def rawText? (input : List Char) : Option (List Char × List Char) :=
  let more := input.takeWhile (· == '#')
  match input.drop more.length with
  | '"' :: rest => lexRawEnd ('"' :: '#' :: more) rest
  | _ => none

def lexRaw (holes : List Nat) (input : List Char) : Option Reading :=
  (rawText? input).map fun found => .single holes (.text (String.ofList found.1), found.2)

/-- An opening brace. Inside a hole it is counted. -/
def lexOpening (sign : String) (holes : List Nat) (rest : List Char) : Reading :=
  match holes with
  | [] => .single [] (.symbol sign, rest)
  | count :: holes => ⟨[.symbol sign], (count + 1) :: holes, false, rest⟩

/-- A closing brace. The last one of a hole leads back to the text around it. -/
def lexClosing (holes : List Nat) (rest : List Char) : Option Reading :=
  match holes with
  | [] => some (.single [] (.symbol "\x7d", rest))
  | 1 :: holes =>
    (lexText holes rest).map fun read => { read with tokens := .symbol "\x7d" :: read.tokens }
  | count :: holes => some ⟨[.symbol "\x7d"], (count - 1) :: holes, true, rest⟩

/-- Any other sign. A minus sign that no operand precedes belongs to the number after it. -/
def lexSign (operand : Bool) (char : Char) (rest : List Char) : Option (Token × List Char) :=
  match notIn? (char :: rest) with
  | some rest => some (.symbol "!in", rest)
  | none =>
    if char = '-' && !operand && rest.head?.any Char.isDigit then lexNumber true rest
    else if (leading? deadSymbols (char :: rest)).isSome then none
    else (leading? symbols (char :: rest)).map fun found => (.symbol found.1, found.2)

def lexOne (holes : List Nat) (operand : Bool) (char : Char) (rest : List Char) : Option Reading :=
  if Text.isBlank char then some (.skip holes operand rest)
  else if char.isDigit then (lexNumber false (char :: rest)).map (.single holes)
  else if isNameStart char then lexWord holes (char :: rest)
  else if char = '"' then
    (lexQuoted '"' (rest.length + 1) rest).map fun found =>
      .single holes (.text (String.ofList found.1), found.2)
  else if char = '\'' then lexLetter holes rest
  else if char = '\x60' then lexText holes (dropLineBreak rest)
  else if char = '/' && rest.head? = some '/' then
    some (.skip holes operand (rest.dropWhile (· != '\n')))
  else if char = '/' && rest.head? = some '*' then
    some (.skip holes operand (skipComment rest.length 0 (rest.drop 1)))
  else if char = '\x7b' then some (lexOpening "\x7b" holes rest)
  else if char = '#' && rest.head? = some '\x7b' then
    some (lexOpening "#\x7b" holes (rest.drop 1))
  else if char = '#' && (rest.head? = some '"' || rest.head? = some '#') then lexRaw holes rest
  else if char = '\x7d' then lexClosing holes rest
  else (lexSign operand char rest).map (.single holes)

/-- The tokens of a text. `holes` counts the open braces of every open hole, the innermost first,
and `operand` tells that the last token ended an operand. -/
def lexFrom : Nat → List Nat → Bool → List Char → Option (List Token)
  | 0, _, _, _ => none
  | _ + 1, holes, _, [] => if holes.isEmpty then some [] else none
  | fuel + 1, holes, operand, char :: rest =>
    (lexOne holes operand char rest).bind fun read =>
      (lexFrom fuel read.holes read.operand read.rest).map (read.tokens ++ ·)

def lex? (input : List Char) : Option (List Token) :=
  lexFrom (input.length + 1) [] false input

end Recast.Script
