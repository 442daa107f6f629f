import Recast.Decimal.Reader
import Recast.Yaml.Node

set_option autoImplicit false

/-!
# Values of YAML

What scalars mean. A plain scalar may be missing, a truth value, a number or a text; every other
scalar is a text. A tag of the core schema decides the kind instead.
-/

namespace Recast.Yaml

inductive Value where
  | null
  | bool (flag : Bool)
  | int (number : Int)
  | float (number : Float)
  | text (content : String)
  | sequence (items : List Value)
  | mapping (entries : List (Value × Value))
  | tagged (tag : String) (value : Value)
deriving Inhabited, Repr

def isNull (text : String) : Bool :=
  ["null", "Null", "NULL", "~"].contains text

def bool? (text : String) : Option Bool :=
  if ["true", "True", "TRUE"].contains text then some true
  else if ["false", "False", "FALSE"].contains text then some false
  else none

def digits? (base : Nat) (digits : List Char) : Option Nat :=
  match digits.mapM Json.hexValue? with
  | some (first :: rest) =>
    if (first :: rest).all (· < base) then
      some ((first :: rest).foldl (fun total digit => total * base + digit) 0)
    else none
  | _ => none

def isPaddedNumber (text : List Char) : Bool :=
  let digits :=
    match text with
    | '-' :: rest => rest
    | '+' :: rest => rest
    | _ => text
  match digits with
  | '0' :: next :: rest => (next :: rest).all Char.isDigit
  | _ => false

def marked? (text : List Char) : Option Nat :=
  match text with
  | '0' :: 'x' :: digits => digits? 16 digits
  | '0' :: 'o' :: digits => digits? 8 digits
  | '0' :: 'b' :: digits => digits? 2 digits
  | _ => none

def int? (text : List Char) : Option Int :=
  let magnitude? (digits : List Char) : Option Nat :=
    (marked? digits).orElse fun _ => if isPaddedNumber text then none else digits? 10 digits
  match text with
  | '-' :: digits => (magnitude? digits).map fun number => -Int.ofNat number
  | '+' :: digits => (magnitude? digits).map Int.ofNat
  | digits => (magnitude? digits).map Int.ofNat

/-- Integers that a value can hold: those of 64 bits, with a sign or without. -/
def isHeld (number : Int) : Bool :=
  -9223372036854775808 ≤ number && number ≤ 18446744073709551615

/-- Integers that are read as integers at all: those of 128 bits, with a sign or without. -/
def isReadable (number : Int) : Bool :=
  -170141183460469231731687303715884105728 ≤ number &&
    number ≤ 340282366920938463463374607431768211455

def float? (text : List Char) : Option Float :=
  let unsigned :=
    match text with
    | '+' :: rest => rest
    | _ => text
  let word := String.ofList unsigned
  if [".inf", ".Inf", ".INF"].contains word then some (1.0 / 0.0)
  else if ["-.inf", "-.Inf", "-.INF"].contains (String.ofList text) then some (-1.0 / 0.0)
  else if [".nan", ".NaN", ".NAN"].contains (String.ofList text) then some (0.0 / 0.0)
  else
    match text, unsigned with
    | '+' :: _, '+' :: _ => none
    | '+' :: _, '-' :: _ => none
    | _, _ => (Decimal.double? unsigned).filter Float.isFinite

/-- The value of a plain scalar. An integer too large to hold is refused. -/
def plainValue? (text : String) : Option Value :=
  let chars := text.toList
  if text.isEmpty || isNull text then some .null
  else
    match bool? text with
    | some flag => some (.bool flag)
    | none =>
      match (int? chars).filter isReadable with
      | some number => if isHeld number then some (.int number) else none
      | none =>
        match if isPaddedNumber chars then none else float? chars with
        | some number => some (.float number)
        | none => some (.text text)

def coreTag (name : String) : String :=
  "tag:yaml.org,2002:" ++ name

/-- A tag of the application: an exclamation mark and a name. -/
def isLocalTag (tag : String) : Bool :=
  match tag.toList with
  | '!' :: _ :: _ => true
  | _ => false

def scalarValue? (tag : Option String) (style : Style) (text : String) : Option Value :=
  match tag with
  | some tag =>
    if tag = coreTag "bool" then (bool? text).map .bool
    else if tag = coreTag "int" then
      ((int? text.toList).filter isHeld).map .int
    else if tag = coreTag "float" then (float? text.toList).map .float
    else if tag = coreTag "null" then if isNull text then some .null else none
    else some (.text text)
  | none => if style = .plain then plainValue? text else some (.text text)

mutual

/-- Whether two values are one key. The order of entries does not matter, and there is one value
that is no number. -/
def Value.isSame : Value → Value → Bool
  | .null, .null => true
  | .bool flag, .bool other => flag == other
  | .int number, .int other => number == other
  | .float number, .float other => number == other || (number.isNaN && other.isNaN)
  | .text content, .text other => content == other
  | .sequence items, .sequence others => areSame items others
  | .mapping entries, .mapping others =>
    entries.length == others.length && areAmong entries others
  | .tagged tag value, .tagged otherTag other => tag == otherTag && value.isSame other
  | _, _ => false

def areSame : List Value → List Value → Bool
  | [], [] => true
  | item :: items, other :: others => item.isSame other && areSame items others
  | _, _ => false

def areAmong : List (Value × Value) → List (Value × Value) → Bool
  | [], _ => true
  | (key, value) :: rest, others =>
    others.any (fun other => key.isSame other.1 && value.isSame other.2) && areAmong rest others

end

def areDistinct : List Value → Bool
  | [] => true
  | key :: rest => !rest.any key.isSame && areDistinct rest

mutual

/-- The value of a node. Local tags are refused unless they are allowed, and keys must be
distinct. -/
def Node.toValue? (tagsAllowed : Bool) : Node → Option Value
  | .scalar tag style text =>
    match tag with
    | some name =>
      if isLocalTag name then
        if tagsAllowed then (scalarValue? none style text).map (.tagged name) else none
      else scalarValue? tag style text
    | none => scalarValue? none style text
  | .sequence tag items =>
    match toValues? tagsAllowed items with
    | none => none
    | some values =>
      match tag with
      | some name =>
        if isLocalTag name then
          if tagsAllowed then some (.tagged name (.sequence values)) else none
        else some (.sequence values)
      | none => some (.sequence values)
  | .mapping tag entries =>
    match toEntries? tagsAllowed entries with
    | none => none
    | some values =>
      if !areDistinct (values.map Prod.fst) then none
      else
        match tag with
        | some name =>
          if isLocalTag name then
            if tagsAllowed then some (.tagged name (.mapping values)) else none
          else some (.mapping values)
        | none => some (.mapping values)

def toValues? (tagsAllowed : Bool) : List Node → Option (List Value)
  | [] => some []
  | item :: rest =>
    match item.toValue? tagsAllowed, toValues? tagsAllowed rest with
    | some value, some values => some (value :: values)
    | _, _ => none

def toEntries? (tagsAllowed : Bool) : List (Node × Node) → Option (List (Value × Value))
  | [] => some []
  | (key, value) :: rest =>
    match key.toValue? tagsAllowed, value.toValue? tagsAllowed, toEntries? tagsAllowed rest with
    | some key, some value, some entries => some ((key, value) :: entries)
    | _, _, _ => none

end

def doubles : Decimal.Layout where
  isPositional := Decimal.isMidRange
  signedExponent := false
  nan := ".nan"
  infinity := ".inf"
  negativeInfinity := "-.inf"

def floatText (number : Float) : String :=
  String.ofList (doubles.write number)

def intText (number : Int) : String :=
  String.ofList (Decimal.intText number)

/-- The text of a scalar; a collection or a tagged value has none. -/
def Value.scalarText? : Value → Option String
  | .null => some ""
  | .bool flag => some (if flag then "true" else "false")
  | .int number => some (intText number)
  | .float number => some (floatText number)
  | .text content => some content
  | _ => none

def Value.text? : Value → Option String
  | .text content => some content
  | .tagged _ value => value.text?
  | _ => none

def inspectChar (char : Char) : List Char :=
  if char = '"' || char = '\\' then ['\\', char]
  else if char = '\n' then ['\\', 'n']
  else if char = '\r' then ['\\', 'r']
  else if char = '\t' then ['\\', 't']
  else if char = '\x00' then ['\\', '0']
  else if char.toNat < 0x20 || char.toNat = 0x7F then
    ['\\', 'u', '\x7b'] ++ Nat.toDigits 16 char.toNat ++ ['\x7d']
  else [char]

def inspectText (content : String) : String :=
  String.ofList ('"' :: content.toList.flatMap inspectChar ++ ['"'])

mutual

def Value.inspect : Value → String
  | .null => "Null"
  | .bool flag => if flag then "Bool(true)" else "Bool(false)"
  | .int number => "Number(" ++ intText number ++ ")"
  | .float number => "Number(" ++ floatText number ++ ")"
  | .text content => "String(" ++ inspectText content ++ ")"
  | .sequence items => "Sequence [" ++ inspectItems items ++ "]"
  | .mapping entries => "Mapping \x7b" ++ inspectEntries entries ++ "\x7d"
  | .tagged tag value => "TaggedValue \x7b tag: " ++ tag ++ ", value: " ++ value.inspect ++ " \x7d"

def inspectItems : List Value → String
  | [] => ""
  | item :: rest => item.inspect ++ (if rest.isEmpty then "" else ", ") ++ inspectItems rest

def inspectEntries : List (Value × Value) → String
  | [] => ""
  | (key, value) :: rest =>
    key.inspectKey ++ ": " ++ value.inspect ++ (if rest.isEmpty then "" else ", ") ++
      inspectEntries rest

/-- A key of a shown mapping; scalars go without their kind. -/
def Value.inspectKey : Value → String
  | .bool flag => if flag then "true" else "false"
  | .int number => intText number
  | .float number => floatText number
  | .text content => inspectText content
  | .null => "Null"
  | .sequence items => "Sequence [" ++ inspectItems items ++ "]"
  | .mapping entries => "Mapping \x7b" ++ inspectEntries entries ++ "\x7d"
  | .tagged tag value => "TaggedValue \x7b tag: " ++ tag ++ ", value: " ++ value.inspect ++ " \x7d"

end

end Recast.Yaml
