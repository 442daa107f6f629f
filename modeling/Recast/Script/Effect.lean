import Recast.Script.Fault
import Recast.Script.Value

set_option autoImplicit false

/-!
# Effects

What an evaluation does besides giving a value: it takes operations, of which there are so many and
no more, it asks the machine that it runs on, and it prints lines. It may also stop before its value
is there.
-/

namespace Recast.Script

/-- Why there is no value. A fault or a thrown value fails unless it is caught, the others carry
values out of the construct that they leave: a function, the whole script, or a loop. -/
inductive Stop where
  | fault (fault : Fault)
  | thrown (value : Value)
  | returned (value : Value)
  | ended (value : Value)
  | broken (value : Value)
  | continued
deriving Repr

/-- What the machine tells a script, by the order in which it is asked: the reading of its clock in
nanoseconds, where in the script it is, how many operations a call takes besides that of its
expression, what a fault is to those who catch it, and what becomes of a call for which the library
has no function. -/
structure Answers where
  reading : Nat → Int
  place : Nat → String
  cost : Nat → Nat
  caught : Nat → Fault → Value
  other : Nat → String → List Value → Option (Except Stop (Value × Value))

/-- A machine whose clock stands still, on which calls take nothing besides, and which has no
functions of its own. -/
def Answers.still : Answers where
  reading _ := 0
  place _ := ""
  cost _ := 0
  caught _ fault := .text fault.message
  other _ _ _ := none

structure Effects where
  operations : Nat
  asked : Nat
  printed : List String
deriving Inhabited, Repr

def Effects.none : Effects :=
  ⟨0, 0, []⟩

abbrev Action := ExceptT Stop (StateM Effects)

def maxOperations : Nat := 100000

/-- Takes one more operation. After the last one nothing goes on. -/
def operate : Action Unit :=
  fun effects =>
    let after := { effects with operations := effects.operations + 1 }
    if maxOperations < after.operations then (.error (.fault .tooManyOperations), after)
    else (.ok (), after)

def operateTimes : Nat → Action Unit
  | 0 => pure ()
  | count + 1 => do
    operate
    operateTimes count

/-- The number of the next answer. -/
def ask : Action Nat :=
  fun effects => (.ok effects.asked, { effects with asked := effects.asked + 1 })

def printLine (line : String) : Action Unit :=
  fun effects => (.ok (), { effects with printed := effects.printed ++ [line] })

def settled {α : Type} (outcome : Except Stop α) : Action α :=
  fun effects => (outcome, effects)

def failing {α : Type} (outcome : Except Fault α) : Action α :=
  settled (outcome.mapError .fault)

/-- Whatever the action comes to, it is only looked at. -/
def attempted {α : Type} (action : Action α) : Action (Except Stop α) :=
  fun effects => (.ok (action effects).1, (action effects).2)

/-- A value that is returned is the outcome. -/
def returning (action : Action Value) : Action Value := do
  match ← attempted action with
  | .ok value => pure value
  | .error (.returned value) => pure value
  | .error stop => throw stop

namespace Answers

variable (answers : Answers)

def now : Action Int := do
  pure (answers.reading (← ask))

def here : Action String := do
  pure (answers.place (← ask))

/-- Takes the operations of a call. -/
def charge : Action Unit := do
  operateTimes (answers.cost (← ask))

def asCaught (fault : Fault) : Action Value := do
  pure (answers.caught (← ask) fault)

/-- A call that the machine answers, if it knows the function. -/
def callOther (name : String) (values : List Value) : Action (Value × Value) := do
  match answers.other (← ask) name values with
  | some outcome => settled outcome
  | none => failing (.error (.functionNotFound name))

end Answers

end Recast.Script
