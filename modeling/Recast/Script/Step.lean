import Recast.Script.Fold
import Recast.Script.Library

set_option autoImplicit false

/-!
# Parts of values

The steps from a value to its parts and to the outcomes of its methods, and the items of a value
one after another.
-/

namespace Recast.Script

inductive ReadyStep where
  | property (optional : Bool) (name : String)
  | index (optional : Bool) (position : Value)
  | method (optional : Bool) (name : String) (arguments : List Value)
deriving Inhabited

def ReadyStep.isOptional : ReadyStep → Bool
  | .property optional _ => optional
  | .index optional _ => optional
  | .method optional _ _ => optional

def textPosition? (length : Nat) (position : Int) : Option Nat :=
  if 0 ≤ position then some position.toNat
  else if length < position.natAbs then none
  else some (length - position.natAbs)

def textInRange (text : List Char) (first last : Int) (inclusive : Bool) : Except Fault Value :=
  match textPosition? text.length first with
  | none => .error (.outOfBounds .text first)
  | some start =>
    let stop := (textPosition? text.length last).getD 0
    let count := (if inclusive then stop + 1 else stop) - start
    .ok (ofChars ((text.drop start).take count))

def indexed (value position : Value) : Except Fault Value :=
  match value, position with
  | .array items, .int position =>
    match itemAt? items position with
    | some item => .ok item
    | none => .error (.outOfBounds .array position)
  | .map entries, .text key => .ok ((valueOf? entries key).getD .unit)
  | .text content, .int position =>
    match itemAt? content.toList position with
    | some letter => .ok (.char letter)
    | none => .error (.outOfBounds .text position)
  | .text content, .range first last inclusive =>
    textInRange content.toList first last inclusive
  | .blob bytes, .int position =>
    match itemAt? bytes position with
    | some byte => .ok (ofByte byte)
    | none => .error (.outOfBounds .array position)
  | .int number, .int position => (bitAt number position).map .bool
  | .int number, .range first last inclusive => bitsInRange number first last inclusive
  | .array _, _ => .error .typeMismatch
  | .map _, _ => .error .typeMismatch
  | .text _, _ => .error .typeMismatch
  | .blob _, _ => .error .typeMismatch
  | .int _, _ => .error .typeMismatch
  | _, _ => .error .noIndexer

def withIndexed (value position part : Value) : Value :=
  match value, position with
  | .array items, .int position =>
    let resolved := if position < 0 then Int.ofNat items.length + position else position
    .array (if 0 ≤ resolved then items.set resolved.toNat part else items)
  | .map entries, .text key => .map (insertSorted key part entries)
  | .blob bytes, .int position =>
    match part with
    | .int number =>
      let resolved := if position < 0 then Int.ofNat bytes.length + position else position
      .blob (if 0 ≤ resolved then bytes.set resolved.toNat (lowestByte number) else bytes)
    | _ => value
  | value, _ => value

def runMethod (calls : Calls) (name : String) (receiver : Value) (constant : Bool)
    (arguments : List Value) : Action (Value × Value) :=
  if name = "type_of" && arguments.isEmpty then pure (.text receiver.kind, receiver)
  else if name = "is_shared" && arguments.isEmpty then pure (.bool false, receiver)
  else do
    calls.answers.charge
    match method? calls name receiver arguments with
    | none => calls.answers.callOther name (receiver :: arguments)
    | some routine =>
      if routine.mutates && constant then failing (.error .nonPureMethod) else routine.run

/-- Follows steps from a value. Parts of a constant are constant, outcomes of methods are not. The
second value is the first one after the methods on its parts. -/
def walk (calls : Calls) (value : Value) (constant : Bool) :
    List ReadyStep → Action (Value × Value)
  | [] => pure (value, value)
  | step :: rest =>
    if step.isOptional && value matches .unit then pure (.unit, value)
    else
      match step with
      | .property _ name =>
        match value with
        | .map entries =>
          match valueOf? entries name with
          | some part => do
            let (outcome, part) ← walk calls part constant rest
            pure (outcome, .map (insertSorted name part entries))
          | none => do
            let (outcome, _) ← walk calls .unit constant rest
            pure (outcome, value)
        | value =>
          match getter? calls.answers value name with
          | some read => do
            let part ← read
            let (outcome, _) ← walk calls part false rest
            pure (outcome, value)
          | none => failing (.error .unknownProperty)
      | .index _ position => do
        let part ← failing (indexed value position)
        let (outcome, part) ← walk calls part constant rest
        pure (outcome, withIndexed value position part)
      | .method _ name arguments => do
        let (outcome, value) ← runMethod calls name value constant arguments
        let (outcome, _) ← walk calls outcome false rest
        pure (outcome, value)

def assignAt (calls : Calls) (sign : String) (part value : Value) :
    List ReadyStep → Except Fault Value
  | [] => if sign = "=" then .ok value else applySigned (assignedSign sign) part value
  | .property _ name :: rest =>
    match part with
    | .map entries => do
      let inner ← assignAt calls sign ((valueOf? entries name).getD .unit) value rest
      .ok (.map (insertSorted name inner entries))
    | _ => .error .unknownProperty
  | .index _ position :: rest => do
    let inner ← indexed part position
    let inner ← assignAt calls sign inner value rest
    .ok (withIndexed part position inner)
  | .method _ _ _ :: _ => .error .unknownProperty

/-- A value belongs to a case: it is one of its values or lies in one of its ranges. -/
def isCase (subject : Value) (values : List Value) : Bool :=
  values.any fun value =>
    match subject, value with
    | .int number, .range first last inclusive =>
      first ≤ number && number ≤ lastOf last inclusive
    | subject, value =>
      subject.kind == value.kind &&
        match subject.equals value with
        | .ok flag => flag
        | .error _ => false

def isIterable : Value → Bool
  | .array _ => true
  | .blob _ => true
  | .text _ => true
  | .range _ _ _ => true
  | _ => false

/-- An item of a value that a loop goes over. -/
def nthItem? (value : Value) (number : Nat) : Option Value :=
  match value with
  | .array items => items[number]?
  | .blob bytes => bytes[number]?.map ofByte
  | .text content => content.toList[number]?.map .char
  | .range first last inclusive =>
    if first + number ≤ lastOf last inclusive then some (.int (first + number)) else none
  | _ => none

end Recast.Script
