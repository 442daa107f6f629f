import Recast.Script.Library.Collection
import Recast.Script.Library.Number
import Recast.Script.Library.Text

set_option autoImplicit false

/-!
# The library

Functions and properties by name. A function and a method are one thing: the first value that a
function is called with is its receiver. Some functions act: they read the clock, print a line, or
end the script.
-/

namespace Recast.Script

def strftime (seconds : Int) (pattern : String) : Except Fault Value :=
  match Calendar.format? (Calendar.DateTime.ofSeconds seconds) pattern.toList with
  | some text => boundedText (String.ofList text)
  | none => .error (.raised ("invalid time format '" ++ pattern ++ "'"))

def timeMethod? (name : String) (seconds : Int) (values : List Value) : Option Method :=
  let same := Value.time seconds
  match name, values with
  | "strftime", [.text pattern] => Method.trying same (strftime seconds pattern)
  | "iso8601", [] =>
    Method.of same (.text (String.ofList
      (Calendar.isoText (Calendar.DateTime.ofSeconds seconds))))
  | _, _ => none

def inspected : Value → String
  | .time seconds => String.ofList (timeText seconds)
  | value => String.ofList value.literal

def unmarked : Int := 0

/-- The seconds since an instant. -/
def elapsed (answers : Answers) (instant : Int) : Action Value := do
  let now ← answers.now
  if now < instant then failing (.error .laterTime)
  else pure (.float (secondsOf (now - instant)))

def printValue (value : Value) : Action Value := do
  printLine value.constantText
  pure .unit

/-- Prints how a value is written, with the place in the script. -/
def debugValue (answers : Answers) (value : Value) : Action Value := do
  let place ← answers.here
  printLine (place ++ " | " ++ inspected value)
  pure .unit

def anyMethod? (answers : Answers) (name : String) (receiver : Value) (values : List Value) :
    Option Routine :=
  match name, values with
  | "to_string", [] => (Method.trying receiver (boundedText receiver.printed)).map .plain
  | "to_debug", [] => (Method.trying receiver (boundedText (inspected receiver))).map .plain
  | "tag", [] => (Method.of receiver (.int unmarked)).map .plain
  | "take", [] => (Method.taking receiver .unit).map .plain
  | "print", [] => Routine.giving receiver (printValue receiver)
  | "debug", [] => Routine.giving receiver (debugValue answers receiver)
  | "exit", [] => some (.acting false (throw (.ended receiver)))
  | _, _ => none

/-- The function of a name that is called with the receiver and the values. -/
def method? (calls : Calls) (name : String) (receiver : Value) (values : List Value) :
    Option Routine :=
  let own : Option Routine :=
    match receiver with
    | .text content => (textMethod? name content values).map .plain
    | .char letter => (charMethod? name letter values).map .plain
    | .int number => (intMethod? name number values).map .plain
    | .float number => (floatMethod? name number values).map .plain
    | .array items => arrayMethod? calls name items values
    | .map entries => mapMethod? calls name entries values
    | .range first last inclusive => (rangeMethod? name first last inclusive values).map .plain
    | .time seconds => (timeMethod? name seconds values).map .plain
    | .instant instant =>
      match name, values with
      | "elapsed", [] => Routine.giving receiver (elapsed calls.answers instant)
      | _, _ => none
    | .blob bytes => (blobMethod? name bytes values).map .plain
    | .bool flag =>
      match name, values with
      | "!", [] => (Method.of receiver (.bool !flag)).map .plain
      | _, _ => none
    | .unit => none
    | .function index captured =>
      match name with
      | "call" => Routine.giving receiver (calls.call index captured .unit values)
      | "curry" => (Method.of receiver (.function index (captured ++ values))).map .plain
      | "is_anonymous" =>
        if values.isEmpty then (Method.of receiver (.bool true)).map .plain else none
      | _ => none
  own.orElse fun _ => anyMethod? calls.answers name receiver values

def timeField? (seconds : Int) (name : String) : Option Value :=
  let time := Calendar.DateTime.ofSeconds seconds
  match name with
  | "year" => some (.int time.date.year)
  | "month" => some (.int time.date.month)
  | "day" => some (.int time.date.day)
  | "hour" => some (.int time.hour)
  | "minute" => some (.int time.minute)
  | "second" => some (.int time.second)
  | "epoch" => some (.int seconds)
  | _ => none

def textProperties : List String := ["len", "bytes", "is_empty"]

def intProperties : List String := ["is_zero", "is_odd", "is_even"]

def floatProperties : List String :=
  ["is_zero", "is_nan", "is_finite", "is_infinite", "floor", "ceiling", "round", "int", "fraction"]

def rangeProperties : List String :=
  ["start", "end", "is_inclusive", "is_exclusive", "is_empty"]

def outcome? (method : Option Method) : Option Value :=
  match method with
  | some ⟨_, .ok (value, _)⟩ => some value
  | _ => none

def ownProperty? (value : Value) (name : String) : Option Value :=
  match value with
  | .text content =>
    if textProperties.contains name then outcome? (textMethod₀? name content) else none
  | .array items =>
    match name with
    | "len" => some (ofNat items.length)
    | "is_empty" => some (.bool items.isEmpty)
    | "first" => some (items.head?.getD .unit)
    | "last" => some (items.getLast?.getD .unit)
    | _ => none
  | .int number =>
    if intProperties.contains name then outcome? (intMethod? name number []) else none
  | .float number =>
    if floatProperties.contains name then outcome? (floatMethod? name number []) else none
  | .range first last inclusive =>
    if rangeProperties.contains name then outcome? (rangeMethod? name first last inclusive [])
    else none
  | .time seconds => timeField? seconds name
  | .blob bytes =>
    match name with
    | "len" => some (ofNat bytes.length)
    | "is_empty" => some (.bool bytes.isEmpty)
    | _ => none
  | .function _ _ => if name = "is_anonymous" then some (.bool true) else none
  | _ => none

/-- A property of a value that is no map. Every value has a mark. -/
def property? (value : Value) (name : String) : Option Value :=
  (ownProperty? value name).orElse fun _ => if name = "tag" then some (.int unmarked) else none

/-- How a property is read. That of an instant asks the clock. -/
def getter? (answers : Answers) (value : Value) (name : String) : Option (Action Value) :=
  match value, name with
  | .instant instant, "elapsed" => some (elapsed answers instant)
  | value, name => (property? value name).map pure

/-- The function of a name that is called with nothing. -/
def nullary? (answers : Answers) (name : String) : Option (Action Value) :=
  match name with
  | "PI" => some (pure (.float pi))
  | "E" => some (pure (.float 2.718281828459045))
  | "timestamp" => some (Value.instant <$> answers.now)
  | "blob" => some (pure (.blob []))
  | "print" => some (printValue (.text ""))
  | "debug" => some (debugValue answers (.text ""))
  | "exit" => some (throw (.ended .unit))
  | _ => none

/-- Calls a function by its name: one of the library, or else one of the machine. The second value
is the first argument afterwards. -/
def callNamed (calls : Calls) (name : String) (values : List Value) :
    Action (Value × Option Value) := do
  calls.answers.charge
  match values with
  | [] =>
    match nullary? calls.answers name with
    | some action => do pure (← action, none)
    | none => do
      let (value, _) ← calls.answers.callOther name []
      pure (value, none)
  | receiver :: values => do
    let (value, receiver) ←
      match method? calls name receiver values with
      | some routine => routine.run
      | none => calls.answers.callOther name (receiver :: values)
    pure (value, some receiver)

end Recast.Script
