import Recast.Json.Reader
import Recast.Path
import Recast.Script.Library.Blob
import Recast.Text.Blank
import Recast.Text.LetterCase
import Recast.Url

set_option autoImplicit false

/-!
# Methods of texts

Positions and lengths count characters.
-/

namespace Recast.Script

def partOf? : Value → Option (List Char)
  | .text content => some content.toList
  | .char letter => some [letter]
  | _ => none

def ofChars (text : List Char) : Value :=
  .text (String.ofList text)

def ofFields (fields : List (List Char)) : Value :=
  .array (fields.map ofChars)

def fieldsFromEnd (part text : List Char) : List (List Char) :=
  (Text.fields part.reverse text.reverse).map List.reverse

/-- Fields from the end, the first `limit - 1` of them cut off and the others left joined. -/
def limitFieldsFromEnd (part : List Char) (limit : Nat) (all : List (List Char)) :
    List (List Char) :=
  if all.length ≤ limit then all
  else all.take (limit - 1) ++ [List.intercalate part (all.drop (limit - 1)).reverse]

/-- The two sides of a position; a position that is not positive counts from the end. -/
def splitAtPosition (text : List Char) (position : Int) : List (List Char) :=
  let count :=
    if 0 < position then position.toNat
    else text.length - position.natAbs
  [text.take count, text.drop count]

def parseInt (text : List Char) (base : Int) : Except Fault Value :=
  if base < 2 || 36 < base then .error .invalidRadix
  else
    let text := Text.trim text
    let (negative, digits) :=
      match text with
      | '-' :: rest => (true, rest)
      | '+' :: rest => (false, rest)
      | _ => (false, text)
    let digitOf (char : Char) : Option Nat :=
      let lower := char.toLower
      let value :=
        if char.isDigit then some (char.toNat - '0'.toNat)
        else if 'a' ≤ lower && lower ≤ 'z' then some (lower.toNat - 'a'.toNat + 10)
        else none
      value.filter fun value => Int.ofNat value < base
    match digits.mapM digitOf with
    | some (first :: rest) =>
      let value := (first :: rest).foldl (fun total digit => total * base.toNat + digit) 0
      let number := if negative then -Int.ofNat value else Int.ofNat value
      if isInt number then .ok (.int number) else .error .noInteger
    | _ => .error .noInteger

def parseFloat (text : List Char) : Except Fault Value :=
  match Decimal.double? (Text.trim text) with
  | some number => .ok (.float number)
  | none => .error .noFloat

def padText (text padding : List Char) (length : Int) : Except Fault Value :=
  if length ≤ 0 || padding.isEmpty then .ok (ofChars text)
  else if maxTextBytes < length.toNat then .error .textTooLong
  else
    let missing := length.toNat - text.length
    let copies := List.replicate (missing / padding.length + 1) padding
    boundedText (String.ofList (text ++ copies.flatten.take missing))

def parseJson (content : String) : Except Fault Value :=
  match Json.read content.toList with
  | .ok value => boundedValue (.ofJson value)
  | .error _ => .error .invalidScript

def decodeUrl (content : String) : Except Fault Value :=
  match Url.decode? content.toList with
  | some text => .ok (ofChars text)
  | none => .error (.raised ("url_decode received invalid UTF-8 in '" ++ content ++ "'"))

def indexFrom (text part : List Char) (start : Int) : Value :=
  let start := startPosition text.length start
  if text.length ≤ start then .int (-1)
  else ofPosition? (Text.findFrom? part start (text.drop start))

def setChar (text : List Char) (position : Int) (letter : Char) : List Char :=
  let resolved := if position < 0 then Int.ofNat text.length + position else position
  if 0 ≤ resolved then text.set resolved.toNat letter else text

def textMethod₀? (name : String) (content : String) : Option Method :=
  let text := content.toList
  let same := Value.text content
  match name with
  | "len" => Method.of same (ofNat text.length)
  | "bytes" => Method.of same (ofNat content.utf8ByteSize)
  | "is_empty" => Method.of same (.bool text.isEmpty)
  | "to_upper" => Method.of same (ofChars (Text.upper text))
  | "to_lower" => Method.of same (ofChars (Text.lower text))
  | "make_upper" => Method.replacing (ofChars (Text.upper text))
  | "make_lower" => Method.replacing (ofChars (Text.lower text))
  | "trim" => Method.replacing (ofChars (Text.trim text))
  | "split" => Method.of same (ofFields (Text.wordsBy Text.isBlank [] text))
  | "to_chars" => Method.of same (.array (text.map .char))
  | "clear" => Method.replacing (.text "")
  | "pop" =>
    match text.getLast? with
    | some letter => Method.taking (.char letter) (ofChars text.dropLast)
    | none => Method.taking .unit same
  | "to_blob" => Method.of same (.blob (bytesOf content))
  | "parse_int" => Method.trying same (parseInt text 10)
  | "parse_float" => Method.trying same (parseFloat text)
  | "parse_json" => Method.trying same (parseJson content)
  | "url_encode" => Method.of same (ofChars (Url.encode text))
  | "url_decode" => Method.trying same (decodeUrl content)
  | "basename" => Method.of same (ofChars (Path.basename text))
  | "dirname" => Method.of same (ofChars (Path.dirname text))
  | _ => none

def textMethodPart? (name : String) (content : String) (part : List Char) : Option Method :=
  let text := content.toList
  let same := Value.text content
  match name with
  | "contains" => Method.of same (.bool (Text.find? part text).isSome)
  | "starts_with" => Method.of same (.bool (part.isPrefixOf text))
  | "ends_with" => Method.of same (.bool (part.isSuffixOf text))
  | "index_of" =>
    Method.of same (if text.isEmpty then .int (-1) else ofPosition? (Text.find? part text))
  | "split" => Method.of same (ofFields (Text.fields part text))
  | "split_rev" => Method.of same (ofFields (fieldsFromEnd part text))
  | "remove" =>
    Method.replacing (if part.isEmpty then same else ofChars (Text.replaceAll part [] text))
  | _ => none

def textMethod₁? (name : String) (content : String) (value : Value) : Option Method :=
  let text := content.toList
  let same := Value.text content
  match name, value with
  | "split", .int position => Method.of same (ofFields (splitAtPosition text position))
  | "get", .int position =>
    let resolved := if position < 0 then Int.ofNat text.length + position else position
    let letter := if 0 ≤ resolved then text[resolved.toNat]? else none
    Method.of same ((letter.map Value.char).getD .unit)
  | "sub_string", .int start =>
    Method.of same (ofChars (text.drop (startPosition text.length start)))
  | "sub_string", .range first last inclusive =>
    Method.of same (ofChars (sliceRange text first last inclusive))
  | "crop", .int start =>
    Method.replacing (ofChars (text.drop (startPosition text.length start)))
  | "crop", .range first last inclusive =>
    Method.replacing (ofChars (sliceRange text first last inclusive))
  | "truncate", .int length => Method.replacing (ofChars (text.take length.toNat))
  | "pop", .int count =>
    let kept := text.length - count.toNat
    Method.taking (ofChars (text.drop kept)) (ofChars (text.take kept))
  | "parse_int", .int base => Method.trying same (parseInt text base)
  | "max", .text other => Method.of same (if textBefore other content then same else .text other)
  | "min", .text other => Method.of same (if textBefore content other then same else .text other)
  | "append", value => Method.tryReplacing (boundedText (content ++ value.printed))
  | name, value => (partOf? value).bind (textMethodPart? name content)

def textMethod₂? (name : String) (content : String) (first second : Value) : Option Method :=
  let text := content.toList
  let same := Value.text content
  match name, first, second with
  | "sub_string", .int start, .int count => Method.of same (ofChars (slice text start count))
  | "crop", .int start, .int count => Method.replacing (ofChars (slice text start count))
  | "set", .int position, .char letter => Method.replacing (ofChars (setChar text position letter))
  | "pad", .int length, padding =>
    (partOf? padding).bind fun padding => Method.tryReplacing (padText text padding length)
  | "index_of", part, .int start =>
    (partOf? part).bind fun part => Method.of same (indexFrom text part start)
  | "split", part, .int limit =>
    (partOf? part).bind fun part =>
      Method.of same (ofFields
        (if limit < 1 then [text] else Text.limitFields part limit.toNat (Text.fields part text)))
  | "split_rev", part, .int limit =>
    (partOf? part).bind fun part =>
      Method.of same (ofFields
        (if limit < 1 then [text]
         else limitFieldsFromEnd part limit.toNat (fieldsFromEnd part text)))
  | "replace", part, other =>
    match partOf? part, partOf? other with
    | some part, some other =>
      Method.tryReplacing (boundedText (String.ofList (Text.replaceAll part other text)))
    | _, _ => none
  | _, _, _ => none

def textMethod? (name : String) (content : String) (values : List Value) : Option Method :=
  match values with
  | [] => textMethod₀? name content
  | [value] => textMethod₁? name content value
  | [first, second] => textMethod₂? name content first second
  | _ => none

def charMethod? (name : String) (letter : Char) (values : List Value) : Option Method :=
  let same := Value.char letter
  let single (form : List Char) : Value :=
    match form with
    | [other] => .char other
    | _ => same
  match name, values with
  | "to_upper", [] => Method.of same (single (Text.upperForm letter))
  | "to_lower", [] => Method.of same (single (Text.lowerForm letter))
  | "make_upper", [] => Method.replacing (single (Text.upperForm letter))
  | "make_lower", [] => Method.replacing (single (Text.lowerForm letter))
  | "to_int", [] => Method.of same (ofNat letter.toNat)
  | "max", [.char other] => Method.of same (if other < letter then same else .char other)
  | "min", [.char other] => Method.of same (if letter < other then same else .char other)
  | _, _ => none

end Recast.Script
