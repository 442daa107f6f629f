import Recast.Script.Step

set_option autoImplicit false

/-!
# Computations among bindings

A computation works on named bindings, and it acts. Whatever evaluation does to the bindings is
done by the few computations that are defined here.
-/

namespace Recast.Script

/-- A named value. A constant cannot be assigned; a captured one is shared with a function. -/
structure Binding where
  name : String
  value : Value
  constant : Bool
  shared : Bool
deriving Inhabited, Repr

abbrev Bindings := List Binding

def Binding.fixed (name : String) (value : Value) : Binding :=
  ⟨name, value, true, false⟩

/-- What an evaluation works on. `shared` tells whether the value that it came to last is shared
with a function. -/
structure Memory where
  bindings : Bindings
  shared : Bool
  effects : Effects
deriving Repr

abbrev Eval := ExceptT Stop (StateM Memory)

section Computations

variable {α : Type}

def perform (action : Action α) : Eval α :=
  fun memory => ((action memory.effects).1, { memory with effects := (action memory.effects).2 })

def settle (outcome : Except Stop α) : Eval α :=
  perform (settled outcome)

def liftExcept (outcome : Except Fault α) : Eval α :=
  perform (failing outcome)

/-- Whatever the computation comes to, it is only looked at. -/
def examined (run : Eval α) : Eval (Except Stop α) :=
  fun memory => (.ok (run memory).1, (run memory).2)

/-- Runs in a block: bindings that are added in it are dropped. -/
def inBlock (run : Eval α) : Eval α :=
  fun memory =>
    let after := (run memory).2
    ((run memory).1, { after with
      bindings := after.bindings.drop (after.bindings.length - memory.bindings.length) })

/-- Runs among bindings of its own. -/
def within (bindings : Bindings) (run : Eval α) : Action α :=
  fun effects =>
    let (outcome, memory) := run ⟨bindings, false, effects⟩
    (outcome, memory.effects)

end Computations

def binding? (bindings : Bindings) (name : String) : Option Binding :=
  bindings.find? fun binding => binding.name == name

def updateBinding (name : String) (change : Binding → Binding) : Bindings → Bindings
  | [] => []
  | binding :: rest =>
    if binding.name = name then change binding :: rest
    else binding :: updateBinding name change rest

/-- What a name is bound to. A function that is called with a detached one is given a copy. -/
structure Held where
  value : Value
  constant : Bool
  detached : Bool

def Binding.held (binding : Binding) : Held :=
  ⟨binding.value, binding.constant, binding.constant || binding.shared⟩

def lookUp (name : String) : Eval Held :=
  fun memory =>
    match binding? memory.bindings name with
    | some binding => (.ok binding.held, { memory with shared := binding.shared })
    | none => (.error (.fault (.variableNotFound name)), memory)

def isBound (name : String) : Eval Bool :=
  fun memory => (.ok (binding? memory.bindings name).isSome, memory)

def wasShared : Eval Bool :=
  fun memory => (.ok memory.shared, memory)

/-- Gives a value that is not shared with any function. -/
def unshared (value : Value) : Eval Value :=
  fun memory => (.ok value, { memory with shared := false })

/-- Takes an operation first. There is no last value yet. -/
def counting {α : Type} (run : Eval α) : Eval α := do
  perform operate
  let _ ← unshared .unit
  run

def change (update : Bindings → Bindings) : Eval Unit :=
  fun memory => (.ok (), { memory with bindings := update memory.bindings })

def store (name : String) (value : Value) : Eval Unit :=
  change (updateBinding name fun binding => { binding with value := value })

def share (name : String) : Eval Unit :=
  change (updateBinding name fun binding => { binding with shared := true })

def add (name : String) (constant : Bool) (value : Value) : Eval Unit :=
  change (⟨name, value, constant, false⟩ :: ·)

/-- Leaves a value behind, if there is one, in a binding that is not fixed. -/
def leave (name : String) (fixed : Bool) (after : Option Value) : Eval Unit :=
  match after with
  | some after => if fixed then pure () else store name after
  | none => pure ()

/-- Captures variables. They are shared from then on. -/
def capture : List String → Eval (List Value)
  | [] => pure []
  | name :: rest => do
    let held ← lookUp name
    share name
    let values ← capture rest
    pure (held.value :: values)

/-- One turn of a loop: the value of the loop if the turn ends it. -/
def turn (body : Eval Value) : Eval (Option Value) := do
  match ← examined (inBlock body) with
  | .ok _ => pure none
  | .error (.broken value) => pure (some value)
  | .error .continued => pure none
  | .error stop => settle (.error stop)

/-- Turns of a loop, as long as the check holds. Each takes an operation, so the fuel of all
operations is enough. -/
def repeatTurns (check : Eval Bool) (body : Eval Value) : Nat → Bool → Eval Value
  | 0, _ => liftExcept (.error .tooManyOperations)
  | fuel + 1, unchecked => counting do
    let goesOn ← if unchecked then pure true else check
    if goesOn then do
      match ← turn body with
      | some value => pure value
      | none => repeatTurns check body fuel false
    else pure .unit

/-- Turns of a loop over the items of a value, from a number on. -/
def eachTurn (source : Value) (body : Value → Nat → Eval Value) : Nat → Nat → Eval Value
  | 0, _ => liftExcept (.error .tooManyOperations)
  | fuel + 1, number =>
    match nthItem? source number with
    | none => pure .unit
    | some item => counting do
      match ← turn (body item number) with
      | some value => pure value
      | none => eachTurn source body fuel (number + 1)

end Recast.Script
