import Recast.Script.Memory
import Recast.Script.Parser

set_option autoImplicit false

/-!
# Evaluation

An expression is evaluated among named bindings. Functions and evaluated texts may go 16 calls
deep. The bindings are threaded through, because an evaluated text may add to them, and so is what
the evaluation does besides.
-/

namespace Recast.Script

/-- What a call needs besides the bindings: the functions of the script and the machine, and the
evaluation of a text among the bindings. -/
structure Machine where
  calls : Calls
  evaluateText : String → Eval Value

def callFunction (machine : Machine) (name : String) (arguments : List Value) :
    Eval (Value × Option Value) :=
  match name, arguments with
  | "type_of", [value] => pure (.text value.kind, none)
  | "is_shared", [_] => do
    let flag ← wasShared
    pure (.bool flag, none)
  | "is_def_fn", [.text _, .int _] => pure (.bool false, none)
  | "is_def_var", [.text target] => do
    let flag ← isBound target
    pure (.bool flag, none)
  | "eval", [.text source] => do
    let value ← machine.evaluateText source
    pure (value, none)
  | "eval", [_] => liftExcept (.error .typeMismatch)
  | name, arguments => perform (callNamed machine.calls name arguments)

def asFlag (value : Value) : Eval Bool :=
  match value with
  | .bool flag => pure flag
  | _ => liftExcept (.error .typeMismatch)

def Jump.stop (jump : Jump) (value : Value) : Stop :=
  match jump with
  | .returning => .returned value
  | .throwing => .thrown value
  | .breaking => .broken value
  | .continuing => .continued

/-- What those who catch get, if it can be caught. -/
def caughtValue? (answers : Answers) (stop : Stop) : Action (Option Value) :=
  match stop with
  | .thrown value => pure (some value)
  | .fault fault =>
    if fault.isCatchable then do
      let value ← answers.asCaught fault
      pure (some value)
    else pure none
  | _ => pure none

mutual

/-- The value of an expression. `receiver` is what a function was called on. -/
def evalExpr (machine : Machine) (receiver : Value) : Expr → Eval Value
  | .constant value => counting (unshared value)
  | .joined segments => counting do
    let values ← evalAll machine receiver segments
    let value ← liftExcept (boundedText (String.join (values.map Value.printed)))
    unshared value
  | .variable name => counting do
    let held ← lookUp name
    pure held.value
  | .self => counting (unshared receiver)
  | .array items => counting do
    let values ← evalAll machine receiver items
    let value ← liftExcept (boundedValue (.array values))
    unshared value
  | .map entries => counting do
    let values ← evalEntries machine receiver entries
    let value ← liftExcept (boundedValue (.map (sortedMap values)))
    unshared value
  | .both left right => counting do
    let value ← evalExpr machine receiver left
    if ← asFlag value then do
      let value ← evalExpr machine receiver right
      let flag ← asFlag value
      unshared (.bool flag)
    else unshared (.bool false)
  | .either left right => counting do
    let value ← evalExpr machine receiver left
    if ← asFlag value then unshared (.bool true)
    else do
      let value ← evalExpr machine receiver right
      let flag ← asFlag value
      unshared (.bool flag)
  | .fallback left right => counting do
    match ← evalExpr machine receiver left with
    | .unit => evalExpr machine receiver right
    | value => pure value
  | .operator sign left right => counting do
    let leftValue ← evalExpr machine receiver left
    let rightValue ← evalExpr machine receiver right
    perform machine.calls.answers.charge
    let value ← liftExcept (applySigned sign leftValue rightValue)
    unshared value
  | .call name arguments => counting do
    match arguments with
    | .variable target :: rest => do
      let values ← evalAll machine receiver rest
      let held ← lookUp target
      let (value, after) ← callFunction machine name (held.value :: values)
      leave target held.detached after
      unshared value
    | arguments => do
      let values ← evalAll machine receiver arguments
      let (value, _) ← callFunction machine name values
      unshared value
  | .chain base steps => counting do
    match base, steps with
    | .variable name, [.method _ "is_shared" []] => do
      let _ ← lookUp name
      let flag ← wasShared
      unshared (.bool flag)
    | .variable name, steps => do
      let ready ← evalSteps machine receiver steps
      let held ← lookUp name
      let (value, after) ← perform (walk machine.calls held.value held.constant ready)
      leave name held.constant (some after)
      unshared value
    | base, steps => do
      let ready ← evalSteps machine receiver steps
      let value ← evalExpr machine receiver base
      let (value, _) ← perform (walk machine.calls value false ready)
      unshared value
  | .choice condition positive negative => counting do
    let value ← evalExpr machine receiver condition
    let flag ← asFlag value
    let value ← inBlock
      (if flag then evalExpr machine receiver positive else evalExpr machine receiver negative)
    unshared value
  | .select subject cases otherwise => counting do
    let value ← evalExpr machine receiver subject
    match ← evalCases machine receiver value cases with
    | some outcome => pure outcome
    | none => evalExpr machine receiver otherwise
  | .assign sign target value => counting do
    let value ← evalExpr machine receiver value
    evalAssign machine receiver sign value target
  | .function index captured => counting do
    let values ← capture captured
    unshared (.function index values)
  | .block statements => counting do
    let value ← inBlock (evalSequence machine receiver .unit statements)
    unshared value
  | .declare name constant value => counting do
    let value ← evalExpr machine receiver value
    add name constant value
    unshared .unit
  | .loop bodyFirst wanted condition body => counting do
    let check : Eval Bool := do
      let value ← evalExpr machine receiver condition
      let flag ← asFlag value
      pure (flag == wanted)
    let value ← repeatTurns check (evalExpr machine receiver body) (maxOperations + 1) bodyFirst
    unshared value
  | .each item counter source body => counting do
    let source ← evalExpr machine receiver source
    if isIterable source then do
      let each (value : Value) (number : Nat) : Eval Value := do
        add item false value
        match counter with
        | some counter => add counter false (ofNat number)
        | none => pure ()
        evalExpr machine receiver body
      let value ← eachTurn source each (maxOperations + 1) 0
      unshared value
    else liftExcept (.error .notIterable)
  | .jump jump value => counting do
    let value ← evalExpr machine receiver value
    settle (.error (jump.stop value))
  | .attempt body name handler => counting do
    match ← examined (inBlock (evalExpr machine receiver body)) with
    | .ok value => unshared value
    | .error stop => do
      match ← perform (caughtValue? machine.calls.answers stop) with
      | none => settle (.error stop)
      | some caught => do
        let handled ← examined (inBlock do
          match name with
          | some name => add name false caught
          | none => pure ()
          evalExpr machine receiver handler)
        match handled with
        | .ok _ => unshared .unit
        | .error (.thrown .unit) => settle (.error stop)
        | .error other => settle (.error other)

def evalAll (machine : Machine) (receiver : Value) : List Expr → Eval (List Value)
  | [] => pure []
  | item :: rest => do
    let value ← evalExpr machine receiver item
    let values ← evalAll machine receiver rest
    pure (value :: values)

/-- Statements one after another. The value is that of the last one. -/
def evalSequence (machine : Machine) (receiver : Value) (value : Value) : List Expr → Eval Value
  | [] => unshared value
  | statement :: rest => do
    let value ← counting (evalExpr machine receiver statement)
    evalSequence machine receiver value rest

def evalEntries (machine : Machine) (receiver : Value) :
    List (String × Expr) → Eval (List (String × Value))
  | [] => pure []
  | (key, item) :: rest => do
    let value ← evalExpr machine receiver item
    let values ← evalEntries machine receiver rest
    pure ((key, value) :: values)

def evalCases (machine : Machine) (receiver : Value) (subject : Value) :
    List (List Value × Expr × Expr) → Eval (Option Value)
  | [] => pure none
  | (values, guard, outcome) :: rest =>
    if isCase subject values then do
      let value ← evalExpr machine receiver guard
      if ← asFlag value then do
        let value ← evalExpr machine receiver outcome
        pure (some value)
      else evalCases machine receiver subject rest
    else evalCases machine receiver subject rest

def evalSteps (machine : Machine) (receiver : Value) : List Step → Eval (List ReadyStep)
  | [] => pure []
  | step :: rest => do
    let ready ← evalStep machine receiver step
    let others ← evalSteps machine receiver rest
    pure (ready :: others)

def evalStep (machine : Machine) (receiver : Value) : Step → Eval ReadyStep
  | .property optional name => pure (.property optional name)
  | .index optional position => do
    let value ← evalExpr machine receiver position
    pure (.index optional value)
  | .method optional name arguments => do
    let values ← evalAll machine receiver arguments
    pure (.method optional name values)

def evalAssign (machine : Machine) (receiver : Value) (sign : String) (value : Value) :
    Expr → Eval Value
  | .variable name => do
    let held ← lookUp name
    if held.constant then liftExcept (.error (.constantModified name))
    else do
      perform machine.calls.answers.charge
      let whole ← liftExcept (assignAt machine.calls sign held.value value [])
      store name whole
      unshared .unit
  | .chain (.variable name) steps => do
    let ready ← evalSteps machine receiver steps
    let held ← lookUp name
    if held.constant then liftExcept (.error (.constantModified name))
    else do
      perform machine.calls.answers.charge
      let whole ← liftExcept (assignAt machine.calls sign held.value value ready)
      store name whole
      unshared .unit
  | _ => unshared .unit

end

/-- Parses a text to evaluate. Functions cannot be written in it. -/
def parseText? (source : String) : Option (List Expr) := do
  let tokens ← lex? source.toList
  parseStatements? tokens

/-- Runs the statements of a text. Nothing is known of them beforehand. -/
def runText (machine : Machine) (statements : List Expr) : Eval Value := do
  match ← examined (evalSequence machine .unit .unit statements) with
  | .ok value => pure value
  | .error (.returned value) => pure value
  | .error stop => settle (.error stop)

/-- The bindings of a call: captured values are shared constants, arguments are neither. -/
def callBindings (names : List String) (captured arguments : List Value) : Bindings :=
  let bound := names.zip (captured ++ arguments)
  let fixed := (bound.take captured.length).map fun entry => ⟨entry.1, entry.2, true, true⟩
  let free := (bound.drop captured.length).map fun entry => ⟨entry.1, entry.2, false, false⟩
  (fixed ++ free).reverse

def machineAt (functions : List Function) (answers : Answers) : Nat → Machine
  | 0 =>
    { calls := ⟨fun _ _ => 0, fun _ _ _ _ => failing (.error .stackOverflow), answers⟩
      evaluateText := fun _ => liftExcept (.error .stackOverflow) }
  | depth + 1 =>
    let inner := machineAt functions answers depth
    { calls :=
        { arity := fun index captured =>
            match functions[index]? with
            | some function => function.parameters.length - captured.length
            | none => 0
          call := fun index captured receiver arguments =>
            match functions[index]? with
            | none => failing (.error (.functionNotFound "Fn"))
            | some function =>
              if function.parameters.length = captured.length + arguments.length then
                returning (within (callBindings function.parameters captured arguments)
                  (counting (evalExpr inner receiver function.body)))
              else failing (.error (.functionNotFound "Fn"))
          answers := answers }
      evaluateText := fun source =>
        match parseText? source with
        | some statements => runText inner statements
        | none => liftExcept (.error .invalidScript) }

def maxCalls : Nat := 16

/-- What a script comes to that stops before its end. -/
def Stop.outcome : Stop → Except Fault Value
  | .fault reason => .error reason
  | .thrown value => .error (.raised value.constantText)
  | .returned value => .ok value
  | .ended value => .ok value
  | .broken value => .ok value
  | .continued => .ok .unit

def settledOutcome : Except Stop Value → Except Fault Value
  | .ok value => .ok value
  | .error stop => stop.outcome

namespace Compiled

/-- Evaluates a script. Its expression is one statement. -/
def evaluate (script : Compiled) (answers : Answers) : Eval Value :=
  counting (evalExpr (machineAt script.functions answers maxCalls) .unit script.body)

def run (script : Compiled) (answers : Answers) (bindings : Bindings) :
    Except Fault Value × Memory :=
  let (outcome, memory) := script.evaluate answers ⟨bindings, false, .none⟩
  (settledOutcome outcome, memory)

end Compiled

/-- Compiles a text: its tokens, its expression, and what is known of it beforehand. -/
def compile? (source : String) : Option Compiled := do
  let tokens ← lex? source.toList
  let script ← parse? tokens
  some script.fold

end Recast.Script
