import Recast.Script.Arithmetic

set_option autoImplicit false

/-!
# Operators

Operators on two values. The basic ones are defined on values of one kind, on mixed numbers and on
characters beside texts; values of different kinds are never equal and never ordered. The library
adds texts joined with anything, arrays and maps, and instants moved by seconds.
-/

namespace Recast.Script

def textComparison? (sign : String) (left right : String) : Option Bool :=
  match sign with
  | "==" => some (left == right)
  | "!=" => some (left != right)
  | "<" => some (textBefore left right)
  | "<=" => some (!textBefore right left)
  | ">" => some (textBefore right left)
  | ">=" => some (!textBefore left right)
  | _ => none

def boundedText (content : String) : Except Fault Value :=
  if maxTextBytes < content.utf8ByteSize then .error .textTooLong else .ok (.text content)

def boundedValue (value : Value) : Except Fault Value :=
  let (arrays, maps, bytes) := value.sizes
  if maxTextBytes < bytes then .error .textTooLong
  else if maxItems < arrays then .error .arrayTooLarge
  else if maxItems < maps then .error .mapTooLarge
  else .ok value

def without (content part : String) : String :=
  if part.isEmpty then content
  else String.ofList (Text.replaceAll part.toList [] content.toList)

/-- Operators on two texts. Characters take part as texts of their own. -/
def textOperator? (sign : String) (left right : String) : Option (Except Fault Value) :=
  match sign with
  | "+" => some (boundedText (left ++ right))
  | "-" => some (.ok (.text (without left right)))
  | _ => (textComparison? sign left right).map fun flag => .ok (.bool flag)

def charOperator? (sign : String) (left right : Char) : Option (Except Fault Value) :=
  match sign with
  | "+" => some (.ok (.text (String.ofList [left, right])))
  | _ =>
    (textComparison? sign (String.singleton left) (String.singleton right)).map fun flag =>
      .ok (.bool flag)

/-- Operators on truth values. False comes before true. -/
def boolOperator? (sign : String) (left right : Bool) : Option Bool :=
  match sign with
  | "&" => some (left && right)
  | "|" => some (left || right)
  | "^" => some (left != right)
  | "==" => some (left == right)
  | "!=" => some (left != right)
  | "<" => some (!left && right)
  | "<=" => some (!left || right)
  | ">" => some (left && !right)
  | ">=" => some (left || !right)
  | _ => none

def unitOperator? (sign : String) : Option Bool :=
  match sign with
  | "==" => some true
  | "!=" => some false
  | "<" => some false
  | "<=" => some false
  | ">" => some false
  | ">=" => some false
  | _ => none

def mixedComparison? (sign : String) : Option Bool :=
  match sign with
  | "!=" => some true
  | "==" => some false
  | "<" => some false
  | "<=" => some false
  | ">" => some false
  | ">=" => some false
  | _ => none

/-- A number of seconds in nanoseconds. -/
def nanoseconds? : Value → Option Int
  | .int number => some (number * 1000000000)
  | .float number => wholePart? (number * 1000000000.0)
  | _ => none

def secondsOf (nanoseconds : Int) : Float :=
  Decimal.ofInt nanoseconds / 1000000000.0

def instantOperator? (sign : String) (left right : Int) : Option Value :=
  match sign with
  | "-" => some (.float (secondsOf (left - right)))
  | "==" => some (.bool (left == right))
  | "!=" => some (.bool (left != right))
  | "<" => some (.bool (left < right))
  | "<=" => some (.bool (left ≤ right))
  | ">" => some (.bool (right < left))
  | ">=" => some (.bool (right ≤ left))
  | _ => none

def basicOperator? (sign : String) (left right : Value) : Option (Except Fault Value) :=
  match left, right with
  | .int left, .int right => intOperator? sign left right
  | .int left, .float right => (floatOperator? sign (Decimal.ofInt left) right).map .ok
  | .float left, .int right => (floatOperator? sign left (Decimal.ofInt right)).map .ok
  | .float left, .float right => (floatOperator? sign left right).map .ok
  | .bool left, .bool right => (boolOperator? sign left right).map fun flag => .ok (.bool flag)
  | .text left, .text right => textOperator? sign left right
  | .text left, .char right => textOperator? sign left (String.singleton right)
  | .char left, .text right =>
    if sign = "-" then none else textOperator? sign (String.singleton left) right
  | .char left, .char right => charOperator? sign left right
  | .unit, .unit => (unitOperator? sign).map fun flag => .ok (.bool flag)
  | .range first last inclusive, .range first' last' inclusive' =>
    let same := first == first' && last == last' && inclusive == inclusive'
    match sign with
    | "==" => some (.ok (.bool same))
    | "!=" => some (.ok (.bool !same))
    | _ => none
  | .instant left, .instant right => (instantOperator? sign left right).map .ok
  | .blob bytes, .blob others =>
    match sign with
    | "==" => some (.ok (.bool (bytes == others)))
    | "!=" => some (.ok (.bool (bytes != others)))
    | _ => none
  | left, right =>
    if left.kind = right.kind then none
    else (mixedComparison? sign).map fun flag => .ok (.bool flag)

mutual

/-- Equality by the operator `==`. Arrays are equal item by item and maps entry by entry. Times
and functions have no equality. -/
def Value.equals : Value → Value → Except Fault Bool
  | .array items, right =>
    match right with
    | .array others =>
      if items.length = others.length then itemsEqual items others else .ok false
    | _ => .ok false
  | .map entries, right =>
    match right with
    | .map others =>
      if entries.length = others.length then entriesEqual entries others else .ok false
    | _ => .ok false
  | left, right =>
    match basicOperator? "==" left right with
    | some (.ok (.bool flag)) => .ok flag
    | some (.ok _) => .ok false
    | some (.error fault) => .error fault
    | none => .error (.functionNotFound "==")

def itemsEqual : List Value → List Value → Except Fault Bool
  | item :: rest, other :: others => do
    if ← item.equals other then itemsEqual rest others else .ok false
  | _, _ => .ok true

def entriesEqual : List (String × Value) → List (String × Value) → Except Fault Bool
  | (key, value) :: rest, (other, old) :: others => do
    if key != other then .ok false
    else if ← value.equals old then entriesEqual rest others
    else .ok false
  | _, _ => .ok true

end

def applySigned (sign : String) (left right : Value) : Except Fault Value :=
  match basicOperator? sign left right with
  | some outcome => outcome
  | none =>
    match sign, left, right with
    | "+", .array items, .array others => boundedValue (.array (items ++ others))
    | "+", .map entries, .map others =>
      boundedValue (.map (mergeSorted (entries.length + others.length) others entries))
    | "+", .text content, value => boundedText (content ++ value.printed)
    | "+", value, .text content => boundedText (value.printed ++ content)
    | "==", .array _, .array _ => (left.equals right).map .bool
    | "!=", .array _, .array _ => (left.equals right).map fun flag => .bool !flag
    | "==", .map _, .map _ => (left.equals right).map .bool
    | "!=", .map _, .map _ => (left.equals right).map fun flag => .bool !flag
    | "+", .instant instant, value =>
      match nanoseconds? value with
      | some seconds => .ok (.instant (instant + seconds))
      | none => .error (.functionNotFound "+")
    | "-", .instant instant, value =>
      match nanoseconds? value with
      | some seconds => .ok (.instant (instant - seconds))
      | none => .error (.functionNotFound "-")
    | _, _, _ => .error (.functionNotFound sign)

def assignedSign (sign : String) : String :=
  String.ofList sign.toList.dropLast

end Recast.Script
