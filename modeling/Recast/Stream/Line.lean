import Recast.Event
import Recast.Json.Skipper
import Recast.Text.Blank

set_option autoImplicit false

/-!
# Event lines

An input line holds one event as a JSON object with a tag, and with a time and a record if it has
them. An array of these in order will also do. Which of two faults of a line is reported depends on
where they stand: a line is read from the left, and each value is checked as soon as it is met.
-/

namespace Recast.Stream

open Recast.Json (Fault)

structure Incoming where
  tag : String
  time : Option Int
  record : Record
deriving Inhabited, Repr

/-- The event of a line; a missing time is that of the clock. -/
def Incoming.toEvent (incoming : Incoming) (now : Int) : Event :=
  ⟨incoming.tag, incoming.time.getD now, incoming.record⟩

def faultOf {α : Type} (outcome : Except Fault α) : Fault :=
  match outcome with
  | .ok _ => .mismatched
  | .error fault => fault

/-- The fault of a value of the wrong kind at the front of the text. A scalar is still read. -/
def wrongKind (input : List Char) : Fault :=
  match input with
  | [] => .truncated
  | 'n' :: rest => faultOf (Json.readWord ['u', 'l', 'l'] rest)
  | 't' :: rest => faultOf (Json.readWord ['r', 'u', 'e'] rest)
  | 'f' :: rest => faultOf (Json.readWord ['a', 'l', 's', 'e'] rest)
  | '"' :: rest => faultOf (Json.readQuoted rest)
  | '-' :: rest => faultOf (Json.readNumber true rest)
  | '[' :: _ => .mismatched
  | '{' :: _ => .mismatched
  | char :: rest =>
    if char.isDigit then faultOf (Json.readNumber false (char :: rest)) else .malformed

/-- A tag: a text. -/
def readTag (input : List Char) : Except Fault (String × List Char) :=
  match Json.skipBlanks input with
  | '"' :: rest => (Json.readQuoted rest).map fun found => (String.ofList found.1, found.2)
  | rest => .error (wrongKind rest)

def secondsOf (found : Json.Number × List Char) : Except Fault (Option Int × List Char) :=
  match found.1 with
  | .int seconds =>
    if seconds ≤ Json.maxSigned then .ok (some seconds, found.2) else .error .mismatched
  | .float _ => .error .mismatched

/-- A time: an integer of 64 bits, or null. -/
def readTime (input : List Char) : Except Fault (Option Int × List Char) :=
  match Json.skipBlanks input with
  | 'n' :: rest => (Json.readWord ['u', 'l', 'l'] rest).map fun rest => (none, rest)
  | '-' :: rest => (Json.readNumber true rest).bind secondsOf
  | char :: rest =>
    if char.isDigit then (Json.readNumber false (char :: rest)).bind secondsOf
    else .error (wrongKind (char :: rest))
  | [] => .error .truncated

def recordRoom : Nat := Json.maxDepth - 2

/-- A record: an object. -/
def readRecord (fuel : Nat) (input : List Char) : Except Fault (Record × List Char) :=
  match Json.skipBlanks input with
  | '{' :: rest =>
    (Json.readEntries fuel recordRoom rest).map fun found => (Assoc.ofPairs found.1, found.2)
  | rest => .error (wrongKind rest)

structure Members where
  tag : Option String
  time : Option (Option Int)
  record : Option Record

/-- The event of all members; a tag must be among them. -/
def Members.toIncoming (members : Members) : Except Fault Incoming :=
  match members.tag with
  | some tag => .ok ⟨tag, members.time.getD none, members.record.getD []⟩
  | none => .error .mismatched

/-- One member, after the opening quote of its key. A member must not come twice. -/
def readMember (fuel : Nat) (members : Members) (input : List Char) :
    Except Fault (Members × List Char) := do
  let (key, rest) ← Json.readQuoted input
  if key = ['t', 'a', 'g'] then
    if members.tag.isSome then .error .mismatched
    else do
      let rest ← Json.readColon rest
      let (tag, rest) ← readTag rest
      .ok ({ members with tag := some tag }, rest)
  else if key = ['t', 'i', 'm', 'e'] then
    if members.time.isSome then .error .mismatched
    else do
      let rest ← Json.readColon rest
      let (time, rest) ← readTime rest
      .ok ({ members with time := some time }, rest)
  else if key = ['r', 'e', 'c', 'o', 'r', 'd'] then
    if members.record.isSome then .error .mismatched
    else do
      let rest ← Json.readColon rest
      let (record, rest) ← readRecord fuel rest
      .ok ({ members with record := some record }, rest)
  else do
    let rest ← Json.readColon rest
    let rest ← Json.skipValue fuel rest
    .ok (members, rest)

/-- Members up to the closing brace, with commas between them. `first` tells that none has been
met. -/
def readMembers : Nat → Bool → Members → List Char → Except Fault (Members × List Char)
  | 0, _, _, _ => .error .truncated
  | fuel + 1, first, members, input =>
    match Json.skipBlanks input with
    | [] => .error .truncated
    | '}' :: rest => .ok (members, rest)
    | ',' :: rest =>
      if first then .error .malformed
      else
        match Json.skipBlanks rest with
        | [] => .error .truncated
        | '"' :: rest => do
          let (members, rest) ← readMember fuel members rest
          readMembers fuel false members rest
        | _ :: _ => .error .malformed
    | '"' :: rest =>
      if first then do
        let (members, rest) ← readMember fuel members rest
        readMembers fuel false members rest
      else .error .malformed
    | _ :: _ => .error .malformed

def readNext (input : List Char) : Except Fault (Option (List Char)) :=
  match Json.skipBlanks input with
  | [] => .error .truncated
  | ']' :: _ => .ok none
  | ',' :: rest =>
    match Json.skipBlanks rest with
    | [] => .error .truncated
    | ']' :: _ => .error .malformed
    | rest => .ok (some rest)
  | _ :: _ => .error .malformed

def readClosing (input : List Char) : Except Fault (List Char) :=
  match Json.skipBlanks input with
  | [] => .error .truncated
  | ']' :: rest => .ok rest
  | _ :: _ => .error .malformed

def readElements (fuel : Nat) (input : List Char) : Except Fault (Incoming × List Char) :=
  match Json.skipBlanks input with
  | ']' :: _ => .error .mismatched
  | rest => do
    let (tag, rest) ← readTag rest
    match ← readNext rest with
    | none => (readClosing rest).map fun rest => (⟨tag, none, []⟩, rest)
    | some rest => do
      let (time, rest) ← readTime rest
      match ← readNext rest with
      | none => (readClosing rest).map fun rest => (⟨tag, time, []⟩, rest)
      | some rest => do
        let (record, rest) ← readRecord fuel rest
        (readClosing rest).map fun rest => (⟨tag, time, record⟩, rest)

def readIncoming (input : List Char) : Except Fault (Incoming × List Char) :=
  let fuel := Json.fuelFor input
  match Json.skipBlanks input with
  | '{' :: rest => do
    let (members, rest) ← readMembers fuel true ⟨none, none, none⟩ rest
    let incoming ← members.toIncoming
    .ok (incoming, rest)
  | '[' :: rest => readElements fuel rest
  | rest => .error (wrongKind rest)

def decodeLine (line : List Char) : Except Fault (Option Incoming) :=
  let line := Text.trim line
  if line.isEmpty then .ok none
  else do
    let (incoming, rest) ← readIncoming line
    Json.readEnd rest
    .ok (some incoming)

end Recast.Stream
