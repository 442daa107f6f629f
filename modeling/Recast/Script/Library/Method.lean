import Recast.Script.Effect
import Recast.Script.Operator

set_option autoImplicit false

/-!
# Methods

What the library holds for a name and the values it is called with: an outcome, and the value of
the receiver afterwards. A method that may change its receiver is no method of a constant. Most
methods only compute; a routine may also act.
-/

namespace Recast.Script

structure Method where
  mutates : Bool
  run : Except Fault (Value × Value)

def Method.of (receiver value : Value) : Option Method :=
  some ⟨false, .ok (value, receiver)⟩

def Method.trying (receiver : Value) (outcome : Except Fault Value) : Option Method :=
  some ⟨false, outcome.map fun value => (value, receiver)⟩

def Method.replacing (receiver : Value) : Option Method :=
  some ⟨true, .ok (.unit, receiver)⟩

def Method.tryReplacing (receiver : Except Fault Value) : Option Method :=
  some ⟨true, receiver.map fun value => (.unit, value)⟩

def Method.taking (value receiver : Value) : Option Method :=
  some ⟨true, .ok (value, receiver)⟩

inductive Routine where
  | plain (method : Method)
  | acting (mutates : Bool) (run : Action (Value × Value))

namespace Routine

def mutates : Routine → Bool
  | .plain method => method.mutates
  | .acting mutates _ => mutates

/-- Runs a routine. What it gives may not be too large. -/
def run (routine : Routine) : Action (Value × Value) := do
  let (value, receiver) ←
    match routine with
    | .plain method => failing method.run
    | .acting _ run => run
  let value ← failing (boundedValue value)
  pure (value, receiver)

/-- The outcome of a routine that does not act. -/
def outcome? : Routine → Option (Except Fault Value)
  | .plain method => some (method.run.map Prod.fst)
  | .acting _ _ => none

def giving (receiver : Value) (value : Action Value) : Option Routine :=
  some (.acting false do pure (← value, receiver))

end Routine

def ofNat (number : Nat) : Value :=
  .int (Int.ofNat number)

def ofPosition? (position : Option Nat) : Value :=
  match position with
  | some position => ofNat position
  | none => .int (-1)

/-- A start position in `length` items; a negative one counts from the end. -/
def startPosition (length : Nat) (start : Int) : Nat :=
  if start < 0 then length - start.natAbs else start.toNat

def slice {α : Type} (items : List α) (start count : Int) : List α :=
  let start := startPosition items.length start
  (items.drop start).take count.toNat

/-- The number of positions that a range covers from a start on. A range with its last integer
covers at least the start. -/
def rangeLength (start last : Int) (inclusive : Bool) : Int :=
  if inclusive then max last start - start + 1 else max last start - start

def sliceRange {α : Type} (items : List α) (first last : Int) (inclusive : Bool) : List α :=
  let start := max first 0
  slice items start (rangeLength start last inclusive)

def cutOut {α : Type} (items : List α) (start count : Int) : List α × List α × List α :=
  let start := startPosition items.length start
  let rest := items.drop start
  (items.take start, rest.take count.toNat, rest.drop count.toNat)

def cutOutRange {α : Type} (items : List α) (first last : Int) (inclusive : Bool) :
    List α × List α × List α :=
  let start := max first 0
  cutOut items start (rangeLength start last inclusive)

end Recast.Script
