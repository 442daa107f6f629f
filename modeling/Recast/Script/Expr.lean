import Recast.Script.Value

set_option autoImplicit false

/-!
# Expressions

The syntax of template expressions, statements among them. Functions written in an expression stand
in a table beside it, so that values do not hold syntax.
-/

namespace Recast.Script

/-- What leaves a function, a loop or everything. -/
inductive Jump where
  | returning
  | throwing
  | breaking
  | continuing
deriving Repr, DecidableEq

mutual

/-- An expression. A loop goes on while its condition is as wanted; with `bodyFirst` its body is run
before the condition is looked at. -/
inductive Expr where
  | constant (value : Value)
  | joined (segments : List Expr)
  | variable (name : String)
  | self
  | array (items : List Expr)
  | map (entries : List (String × Expr))
  | both (left right : Expr)
  | either (left right : Expr)
  | fallback (left right : Expr)
  | operator (sign : String) (left right : Expr)
  | call (name : String) (arguments : List Expr)
  | chain (base : Expr) (steps : List Step)
  | choice (condition positive negative : Expr)
  | select (subject : Expr) (cases : List (List Value × Expr × Expr)) (otherwise : Expr)
  | assign (sign : String) (target : Expr) (value : Expr)
  | function (index : Nat) (captured : List String)
  | block (statements : List Expr)
  | declare (name : String) (constant : Bool) (value : Expr)
  | loop (bodyFirst wanted : Bool) (condition body : Expr)
  | each (item : String) (counter : Option String) (source body : Expr)
  | jump (jump : Jump) (value : Expr)
  | attempt (body : Expr) (name : Option String) (handler : Expr)

/-- A step from a value to a part of it or to the outcome of a method. An optional step stops at a
missing value. -/
inductive Step where
  | property (optional : Bool) (name : String)
  | index (optional : Bool) (position : Expr)
  | method (optional : Bool) (name : String) (arguments : List Expr)

end

instance : Inhabited Expr := ⟨.constant .unit⟩

/-- A function of a script. What it captured is bound to its first parameters. -/
structure Function where
  parameters : List String
  body : Expr

/-- A compiled script: an expression and its functions. -/
structure Compiled where
  body : Expr
  functions : List Function

/-- The name that a statement binds for those after it. -/
def Expr.declared : Expr → List String
  | .declare name _ _ => [name]
  | _ => []

def unbound (bound names : List String) : List String :=
  names.filter fun name => !bound.contains name

mutual

/-- The variables of an expression that it does not bind itself. -/
def Expr.variables : Expr → List String
  | .constant _ => []
  | .joined segments => variablesOf segments
  | .variable name => [name]
  | .self => []
  | .array items => variablesOf items
  | .map entries => variablesOfEntries entries
  | .both left right => left.variables ++ right.variables
  | .either left right => left.variables ++ right.variables
  | .fallback left right => left.variables ++ right.variables
  | .operator _ left right => left.variables ++ right.variables
  | .call _ arguments => variablesOf arguments
  | .chain base steps => base.variables ++ variablesOfSteps steps
  | .choice condition positive negative =>
    condition.variables ++ positive.variables ++ negative.variables
  | .select subject cases otherwise =>
    subject.variables ++ variablesOfCases cases ++ otherwise.variables
  | .assign _ target value => value.variables ++ target.variables
  | .function _ captured => captured
  | .block statements => variablesOfBlock statements
  | .declare _ _ value => value.variables
  | .loop _ _ condition body => condition.variables ++ body.variables
  | .each item counter source body =>
    source.variables ++ unbound (item :: counter.toList) body.variables
  | .jump _ value => value.variables
  | .attempt body name handler => body.variables ++ unbound name.toList handler.variables

def variablesOfBlock : List Expr → List String
  | [] => []
  | statement :: rest =>
    statement.variables ++ unbound statement.declared (variablesOfBlock rest)

def variablesOf : List Expr → List String
  | [] => []
  | item :: rest => item.variables ++ variablesOf rest

def variablesOfEntries : List (String × Expr) → List String
  | [] => []
  | (_, item) :: rest => item.variables ++ variablesOfEntries rest

def variablesOfCases : List (List Value × Expr × Expr) → List String
  | [] => []
  | (_, guard, item) :: rest => guard.variables ++ item.variables ++ variablesOfCases rest

def variablesOfSteps : List Step → List String
  | [] => []
  | step :: rest => step.variables ++ variablesOfSteps rest

def Step.variables : Step → List String
  | .property _ _ => []
  | .index _ position => position.variables
  | .method _ _ arguments => variablesOf arguments

end

end Recast.Script
