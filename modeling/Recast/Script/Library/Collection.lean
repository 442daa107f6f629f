import Recast.Script.Library.Method

set_option autoImplicit false

/-!
# Methods of arrays, maps and ranges

Routines that call a function are given its meaning as `Calls`.
-/

namespace Recast.Script

/-- How functions of a script are called: the number of parameters left once the captured ones are
bound, what becomes of a call with a receiver and arguments, and the machine that it runs on. -/
structure Calls where
  arity : Nat → List Value → Nat
  call : Nat → List Value → Value → List Value → Action Value
  answers : Answers

def numbered {α : Type} (items : List α) : List (α × Nat) :=
  items.zip (List.range items.length)

def isTrue : Value → Bool
  | .bool flag => flag
  | _ => false

section

variable (calls : Calls) (function : Nat) (captured : List Value)

/-- Calls a function for the item at a position. It takes the item as its receiver, as one
argument, or as an argument with the position. -/
def Calls.item (item : Value) (position : Nat) : Action Value :=
  match calls.arity function captured with
  | 0 => calls.call function captured item []
  | 1 => calls.call function captured .unit [item]
  | _ => calls.call function captured .unit [item, ofNat position]

def Calls.mapItems (items : List (Value × Nat)) : Action (List Value) :=
  items.mapM fun (item, position) => calls.item function captured item position

/-- The items for which a function holds, and the others. -/
def Calls.filterItems : List (Value × Nat) → Action (List Value × List Value)
  | [] => pure ([], [])
  | (item, position) :: rest => do
    let flag ← calls.item function captured item position
    let (kept, dropped) ← filterItems rest
    pure (if isTrue flag then (item :: kept, dropped) else (kept, item :: dropped))

/-- The first item for which a function holds, with its position. -/
def Calls.findItem? : List (Value × Nat) → Action (Option (Value × Nat))
  | [] => pure none
  | (item, position) :: rest => do
    let flag ← calls.item function captured item position
    if isTrue flag then pure (some (item, position)) else findItem? rest

def Calls.holdForAll : List (Value × Nat) → Action Bool
  | [] => pure true
  | (item, position) :: rest => do
    let flag ← calls.item function captured item position
    if isTrue flag then holdForAll rest else pure false

/-- The first outcome of a function that is not missing. -/
def Calls.findOutcome : List (Value × Nat) → Action Value
  | [] => pure .unit
  | (item, position) :: rest => do
    match ← calls.item function captured item position with
    | .unit => findOutcome rest
    | value => pure value

def Calls.reduceItems (start : Value) (items : List (Value × Nat)) : Action Value :=
  items.foldlM (fun total (item, position) =>
    match calls.arity function captured with
    | 1 => calls.call function captured item [total]
    | 2 => calls.call function captured .unit [total, item]
    | _ => calls.call function captured .unit [total, item, ofNat position]) start

/-- A function gives a negative integer if the first item comes before. If it fails, or gives
anything else, the items count as equal. -/
def Calls.isBefore (item other : Value) : Action Bool := do
  match ← attempted (calls.call function captured .unit [item, other]) with
  | .ok (.int order) => pure (order < 0)
  | _ => pure false

/-- Puts an item behind those of a sorted list, the last one first, that do not come after it. -/
def Calls.insertItem (item : Value) : List Value → Action (List Value)
  | [] => pure [item]
  | last :: rest => do
    if ← calls.isBefore function captured item last then do
      let rest ← insertItem item rest
      pure (last :: rest)
    else pure (item :: last :: rest)

def Calls.sortBy (items : List Value) : Action (List Value) := do
  let sorted ← items.foldlM
    (fun sorted item => calls.insertItem function captured item sorted) []
  pure sorted.reverse

end

/-- The position of the first item equal to a value. Values of other kinds are not equal. -/
def indexOfValue (value : Value) (position : Nat) : List Value → Except Fault (Option Nat)
  | [] => .ok none
  | item :: rest => do
    let same ← if item.kind = value.kind then item.equals value
      else .ok (match basicOperator? "==" item value with
        | some (.ok (.bool flag)) => flag
        | _ => false)
    if same then .ok (some position) else indexOfValue value (position + 1) rest

def padArray (items : List Value) (length : Int) (value : Value) : Except Fault Value :=
  if Int.ofNat maxItems < length then .error .arrayTooLarge
  else boundedValue (.array (items ++ List.replicate (length.toNat - items.length) value))

def before? (left right : Value) : Option Bool :=
  match left, right with
  | .int left, .int right => some (left < right)
  | .float left, .float right => some (left < right)
  | .text left, .text right => some (textBefore left right)
  | .char left, .char right => some (left < right)
  | .bool left, .bool right => some (!left && right)
  | _, _ => none

/-- Sorts items of one kind; those of a kind without an order stay as they are. -/
def sortItems (items : List Value) : Except Fault (List Value) :=
  match items with
  | [] => .ok []
  | first :: rest =>
    if rest.all fun item => item.kind == first.kind then
      .ok (items.mergeSort fun left right => (before? right left) != some true)
    else
      .error (.functionNotFound "sort() cannot be called with elements of different types")

/-- Sorts items from the last to the first. Equal ones keep their order. -/
def sortDown (items : List Value) : Except Fault (List Value) :=
  (sortItems items.reverse).map List.reverse

def dedupItems : List Value → List Value
  | [] => []
  | item :: rest =>
    match dedupItems rest with
    | next :: others =>
      match item.equals next with
      | .ok true => item :: others
      | _ => item :: next :: others
    | [] => [item]

def arrayMethod₀? (name : String) (items : List Value) : Option Method :=
  let same := Value.array items
  match name with
  | "len" => Method.of same (ofNat items.length)
  | "is_empty" => Method.of same (.bool items.isEmpty)
  | "pop" => Method.taking (items.getLast?.getD .unit) (.array items.dropLast)
  | "shift" => Method.taking (items.head?.getD .unit) (.array (items.drop 1))
  | "clear" => Method.replacing (.array [])
  | "reverse" => Method.replacing (.array items.reverse)
  | "sort" => Method.tryReplacing ((sortItems items).map .array)
  | "sort_desc" => Method.tryReplacing ((sortDown items).map .array)
  | "order" => Method.trying same ((sortItems items).map .array)
  | "order_desc" => Method.trying same ((sortDown items).map .array)
  | "dedup" => Method.replacing (.array (dedupItems items))
  | _ => none

def takingOut (parts : List Value × List Value × List Value) : Option Method :=
  Method.taking (.array parts.2.1) (.array (parts.1 ++ parts.2.2))

def keeping (parts : List Value × List Value × List Value) : Option Method :=
  Method.taking (.array (parts.1 ++ parts.2.2)) (.array parts.2.1)

def splicing (parts : List Value × List Value × List Value) (others : List Value) :
    Option Method :=
  Method.tryReplacing (boundedValue (.array (parts.1 ++ others ++ parts.2.2)))

def arrayMethod₁? (name : String) (items : List Value) (value : Value) : Option Method :=
  let same := Value.array items
  let resolve (position : Int) : Int :=
    if position < 0 then Int.ofNat items.length + position else position
  match name, value with
  | "contains", value =>
    Method.trying same ((indexOfValue value 0 items).map fun found => .bool found.isSome)
  | "index_of", value => Method.trying same ((indexOfValue value 0 items).map ofPosition?)
  | "get", .int position =>
    let resolved := resolve position
    Method.of same ((if 0 ≤ resolved then items[resolved.toNat]? else none).getD .unit)
  | "remove", .int position =>
    let resolved := resolve position
    if 0 ≤ resolved && resolved < Int.ofNat items.length then
      Method.taking (items.getD resolved.toNat .unit) (.array (items.eraseIdx resolved.toNat))
    else Method.taking .unit same
  | "truncate", .int length => Method.replacing (.array (items.take length.toNat))
  | "chop", .int length =>
    Method.replacing (.array (items.drop (items.length - length.toNat)))
  | "extract", .int start =>
    Method.taking (.array (items.drop (startPosition items.length start))) same
  | "extract", .range first last inclusive =>
    Method.taking (.array (sliceRange items first last inclusive)) same
  | "split", .int position =>
    let count := startPosition items.length position
    Method.taking (.array (items.drop count)) (.array (items.take count))
  | "drain", .range first last inclusive => takingOut (cutOutRange items first last inclusive)
  | "retain", .range first last inclusive => keeping (cutOutRange items first last inclusive)
  | "append", .array others => Method.tryReplacing (boundedValue (.array (items ++ others)))
  | "push", value => Method.tryReplacing (boundedValue (.array (items ++ [value])))
  | _, _ => none

def arrayRoutine? (calls : Calls) (name : String) (items : List Value) (function : Nat)
    (captured : List Value) : Option Routine :=
  let same := Value.array items
  let entries := numbered items
  let kept := calls.filterItems function captured entries
  let found := calls.findItem? function captured entries
  let sorted := calls.sortBy function captured items
  match name with
  | "map" => Routine.giving same (Value.array <$> calls.mapItems function captured entries)
  | "filter" => Routine.giving same do pure (.array (← kept).1)
  | "some" => Routine.giving same do pure (.bool (← found).isSome)
  | "all" => Routine.giving same (Value.bool <$> calls.holdForAll function captured entries)
  | "find" => Routine.giving same do pure (((← found).map Prod.fst).getD .unit)
  | "index_of" => Routine.giving same do pure (ofPosition? ((← found).map Prod.snd))
  | "find_map" => Routine.giving same (calls.findOutcome function captured entries)
  | "reduce" => Routine.giving same (calls.reduceItems function captured .unit entries)
  | "reduce_rev" => Routine.giving same (calls.reduceItems function captured .unit entries.reverse)
  | "for_each" => some (.acting true do
      let _ ← calls.mapItems function captured entries
      pure (.unit, same))
  | "sort" => some (.acting true do pure (.unit, .array (← sorted)))
  | "sort_by" => some (.acting true do pure (.unit, .array (← sorted)))
  | "order_by" => Routine.giving same (Value.array <$> sorted)
  | "retain" => some (.acting true do
      let (kept, dropped) ← kept
      pure (.array dropped, .array kept))
  | "drain" => some (.acting true do
      let (drained, left) ← kept
      pure (.array drained, .array left))
  | _ => none

def arrayMethod₂? (name : String) (items : List Value) (first second : Value) : Option Method :=
  let same := Value.array items
  match name, first, second with
  | "pad", .int length, value => Method.tryReplacing (padArray items length value)
  | "extract", .int start, .int count => Method.taking (.array (slice items start count)) same
  | "drain", .int start, .int count => takingOut (cutOut items start count)
  | "retain", .int start, .int count => keeping (cutOut items start count)
  | "splice", .range first last inclusive, .array others =>
    splicing (cutOutRange items first last inclusive) others
  | "insert", .int position, value =>
    let place := min (startPosition items.length position) items.length
    Method.tryReplacing (boundedValue (.array (items.take place ++ value :: items.drop place)))
  | "set", .int position, value =>
    let resolved := if position < 0 then Int.ofNat items.length + position else position
    Method.replacing (.array (if 0 ≤ resolved then items.set resolved.toNat value else items))
  | "index_of", value, .int start =>
    let start := startPosition items.length start
    Method.trying same ((indexOfValue value start (items.drop start)).map ofPosition?)
  | _, _, _ => none

def arrayRoutine₂? (calls : Calls) (name : String) (items : List Value) (first second : Value) :
    Option Routine :=
  let same := Value.array items
  match name, first, second with
  | "reduce", .function function captured, start =>
    Routine.giving same (calls.reduceItems function captured start (numbered items))
  | "reduce_rev", .function function captured, start =>
    Routine.giving same (calls.reduceItems function captured start (numbered items).reverse)
  | "zip", .array others, .function function captured =>
    Routine.giving same (Value.array <$> (items.zip others).mapM fun (item, other) =>
      calls.call function captured .unit [item, other])
  | name, first, second => (arrayMethod₂? name items first second).map .plain

def arrayMethod? (calls : Calls) (name : String) (items : List Value) (values : List Value) :
    Option Routine :=
  match values with
  | [] => (arrayMethod₀? name items).map .plain
  | [.function function captured] =>
    (arrayRoutine? calls name items function captured).orElse fun _ =>
      (arrayMethod₁? name items (.function function captured)).map .plain
  | [value] => (arrayMethod₁? name items value).map .plain
  | [first, second] => arrayRoutine₂? calls name items first second
  | [.int start, .int count, .array others] =>
    if name = "splice" then (splicing (cutOut items start count) others).map .plain else none
  | _ => none

mutual

/-- A value in a map as JSON. Arrays are written as literals. -/
def valueJson : Value → List Char
  | .map entries => '\x7b' :: (entriesJson true entries ++ ['\x7d'])
  | .unit => ['n', 'u', 'l', 'l']
  | value => value.literal

/-- The entries of a map as JSON; `first` tells that none has been written. -/
def entriesJson (first : Bool) : List (String × Value) → List Char
  | [] => []
  | (key, value) :: rest =>
    (if first then [] else [',']) ++ (Value.text key).literal ++ ':' :: valueJson value ++
      entriesJson false rest

end

/-- The entries for which a function holds, and the others. It takes the key and the value, or the
key alone with the value as its receiver. -/
def Calls.filterEntries (calls : Calls) (function : Nat) (captured : List Value) :
    List (String × Value) → Action (List (String × Value) × List (String × Value))
  | [] => pure ([], [])
  | (key, value) :: rest => do
    let flag ←
      match calls.arity function captured with
      | 1 => calls.call function captured value [.text key]
      | _ => calls.call function captured .unit [.text key, value]
    let (kept, dropped) ← filterEntries calls function captured rest
    pure (if isTrue flag then ((key, value) :: kept, dropped) else (kept, (key, value) :: dropped))

def mapRoutine? (calls : Calls) (name : String) (entries : List (String × Value))
    (function : Nat) (captured : List Value) : Option Routine :=
  let parts := calls.filterEntries function captured entries
  match name with
  | "filter" => Routine.giving (.map entries) do pure (.map (← parts).1)
  | "drain" => some (.acting true do
      let (drained, left) ← parts
      pure (.map drained, .map left))
  | "retain" => some (.acting true do
      let (kept, dropped) ← parts
      pure (.map dropped, .map kept))
  | _ => none

def mapMethod₀? (name : String) (entries : List (String × Value)) (values : List Value) :
    Option Method :=
  let same := Value.map entries
  let fill (others : List (String × Value)) : Value :=
    .map (mergeSorted (entries.length + others.length) entries others)
  let mix (others : List (String × Value)) : Value :=
    .map (mergeSorted (entries.length + others.length) others entries)
  match name, values with
  | "len", [] => Method.of same (ofNat entries.length)
  | "is_empty", [] => Method.of same (.bool entries.isEmpty)
  | "keys", [] => Method.of same (.array (entries.map fun entry => .text entry.1))
  | "values", [] => Method.of same (.array (entries.map Prod.snd))
  | "to_json", [] => Method.of same (.text (String.ofList (valueJson same)))
  | "clear", [] => Method.replacing (.map [])
  | "contains", [.text key] => Method.of same (.bool (valueOf? entries key).isSome)
  | "get", [.text key] => Method.of same ((valueOf? entries key).getD .unit)
  | "remove", [.text key] =>
    Method.taking ((valueOf? entries key).getD .unit)
      (.map (entries.filter fun entry => entry.1 != key))
  | "set", [.text key, value] =>
    Method.tryReplacing (boundedValue (.map (insertSorted key value entries)))
  | "mixin", [.map others] => Method.tryReplacing (boundedValue (mix others))
  | "fill_with", [.map others] => Method.tryReplacing (boundedValue (fill others))
  | _, _ => none

def mapMethod? (calls : Calls) (name : String) (entries : List (String × Value))
    (values : List Value) : Option Routine :=
  match values with
  | [.function function captured] => mapRoutine? calls name entries function captured
  | values => (mapMethod₀? name entries values).map .plain

def lastOf (last : Int) (inclusive : Bool) : Int :=
  if inclusive then last else last - 1

def rangeMethod? (name : String) (first last : Int) (inclusive : Bool) (values : List Value) :
    Option Method :=
  let same := Value.range first last inclusive
  match name, values with
  | "start", [] => Method.of same (.int first)
  | "end", [] => Method.of same (.int last)
  | "is_inclusive", [] => Method.of same (.bool inclusive)
  | "is_exclusive", [] => Method.of same (.bool !inclusive)
  | "is_empty", [] => Method.of same (.bool (lastOf last inclusive < first))
  | "contains", [.int number] =>
    Method.of same (.bool (first ≤ number && number ≤ lastOf last inclusive))
  | _, _ => none

end Recast.Script
