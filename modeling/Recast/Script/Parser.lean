import Recast.Script.Expr
import Recast.Script.Lexer

set_option autoImplicit false

/-!
# From tokens to expressions

A script is one expression. Braces hold exactly one expression or one assignment, and the body of a
function is one statement. A text to evaluate is a sequence of statements, and so is what its braces
hold. Expressions may nest 64 levels deep; every operator of a run counts as a level.
-/

namespace Recast.Script

structure Pending where
  tokens : List Token
  functions : List Function

abbrev Parser := StateT Pending Option

namespace Parser

def fail {α : Type} : Parser α :=
  fun _ => none

def ensure (condition : Bool) : Parser Unit :=
  if condition then pure () else fail

def peek? : Parser (Option Token) :=
  fun pending => some (pending.tokens.head?, pending)

def skip : Parser Unit :=
  fun pending => some ((), { pending with tokens := pending.tokens.drop 1 })

/-- The next token is a symbol; it is dropped if so. -/
def accept (sign : String) : Parser Bool := do
  match ← peek? with
  | some (.symbol found) =>
    if found = sign then do
      skip
      pure true
    else pure false
  | _ => pure false

def expect (sign : String) : Parser Unit := do
  ensure (← accept sign)

/-- The next token is a word; it is dropped if so. -/
def acceptWord (word : String) : Parser Bool := do
  match ← peek? with
  | some (.keyword found) =>
    if found = word then do
      skip
      pure true
    else pure false
  | _ => pure false

def expectName : Parser String := do
  match ← peek? with
  | some (.name name) => do
    skip
    pure name
  | _ => fail

def addFunction (function : Function) : Parser Nat :=
  fun pending =>
    some (pending.functions.length,
      { pending with functions := pending.functions ++ [function] })

end Parser

open Recast.Script.Parser

/-- Where an expression stands: in a hole of a template, in a function there, or in a text to
evaluate, where a loop may be around it. -/
inductive Place where
  | hole
  | function
  | text (looping : Bool)
deriving Repr, DecidableEq

namespace Place

def isText : Place → Bool
  | .text _ => true
  | _ => false

/-- Loops may be written as expressions. -/
def hasLoops : Place → Bool
  | .hole => false
  | _ => true

def isLooping : Place → Bool
  | .text looping => looping
  | _ => false

def inLoop : Place → Place
  | .text _ => .text true
  | place => place

end Place

def maxLevel : Nat := 64

def deeper (level : Nat) : Parser Nat :=
  if level < maxLevel then pure (level + 1) else fail

def precedence (sign : String) : Nat :=
  if ["||", "|", "^"].contains sign then 30
  else if ["&&", "&"].contains sign then 60
  else if ["==", "!="].contains sign then 90
  else if ["in", "!in"].contains sign then 110
  else if ["<", "<=", ">", ">="].contains sign then 130
  else if sign = "??" then 135
  else if ["..", "..="].contains sign then 140
  else if ["+", "-"].contains sign then 150
  else if ["*", "/", "%"].contains sign then 180
  else if sign = "**" then 190
  else if ["<<", ">>"].contains sign then 210
  else 0

def bindsRight (sign : String) : Bool :=
  sign = "**"

def operatorSign? : Option Token → Option String
  | some (.symbol sign) => if precedence sign = 0 then none else some sign
  | some (.keyword "in") => some "in"
  | _ => none

def assignmentSigns : List String :=
  ["=", "+=", "-=", "*=", "/=", "%=", "**=", "<<=", ">>=", "&=", "|=", "^="]

/-- An expression written as something other than a truth value cannot be a condition. -/
def mayBeCondition : Expr → Bool
  | .constant (.bool _) => true
  | .constant _ => false
  | .joined _ => false
  | .array _ => false
  | .map _ => false
  | _ => true

def applyOperator (sign : String) (left right : Expr) : Parser Expr :=
  if sign = "&&" || sign = "||" then do
    ensure (mayBeCondition left && mayBeCondition right)
    pure (if sign = "&&" then .both left right else .either left right)
  else if sign = "??" then pure (.fallback left right)
  else if sign = "in" then pure (.call "contains" [right, left])
  else if sign = "!in" then pure (.call "!" [.call "contains" [right, left]])
  else pure (.operator sign left right)

/-- A sign before an operand. Numbers take it at once. -/
def applySign (sign : String) (operand : Expr) : Expr :=
  match sign, operand with
  | "-", .constant (.int number) =>
    if isInt (-number) then .constant (.int (-number))
    else .constant (.float (-Decimal.ofInt number))
  | "-", .constant (.float number) => .constant (.float (-number))
  | "+", .constant (.int number) => .constant (.int number)
  | "+", .constant (.float number) => .constant (.float number)
  | sign, operand => .call sign [operand]

def mayIndex (base position : Expr) : Bool :=
  match position with
  | .constant (.int _) =>
    match base with
    | .map _ => false
    | .constant (.int _) => true
    | .constant (.text _) => true
    | .constant _ => false
    | .both _ _ => false
    | .either _ _ => false
    | _ => true
  | .constant (.text _) =>
    match base with
    | .array _ => false
    | .joined _ => false
    | .constant (.int _) => true
    | .constant _ => false
    | .both _ _ => false
    | .either _ _ => false
    | _ => true
  | .joined _ =>
    match base with
    | .array _ => false
    | .joined _ => false
    | .constant _ => false
    | _ => true
  | .constant _ => false
  | .both _ _ => false
  | .either _ _ => false
  | _ => true

def isPart : Step → Bool
  | .property _ _ => true
  | .index _ _ => true
  | .method _ _ _ => false

def isAssignable : Expr → Bool
  | .variable _ => true
  | .self => true
  | .chain (.variable _) steps => steps.all isPart
  | .chain .self steps => steps.all isPart
  | _ => false

def distinct : List String → List String
  | [] => []
  | name :: rest => name :: (distinct rest).filter (· != name)

def isEmptyText : Expr → Bool
  | .constant (.text content) => content.isEmpty
  | _ => false

/-- The names that a loop over items binds: the item, and perhaps its position. -/
def parseItemNames : Parser (String × Option String) := do
  if ← accept "(" then do
    let item ← expectName
    expect ","
    let counter ← expectName
    expect ")"
    ensure (item != counter)
    pure (item, some counter)
  else do
    let item ← expectName
    pure (item, none)

def literalValue? : Expr → Option Value
  | .constant value => some value
  | .operator ".." (.constant (.int first)) (.constant (.int last)) =>
    some (.range first last false)
  | .operator "..=" (.constant (.int first)) (.constant (.int last)) =>
    some (.range first last true)
  | _ => none

def loopWords : List String :=
  ["while", "loop", "do", "for"]

def statementWords : List String :=
  ["let", "const", "return", "throw", "break", "continue", "try", "if", "switch"] ++ loopWords

/-- The word may begin an expression, not only a statement. -/
def Place.admits (place : Place) (word : String) : Bool :=
  ["if", "switch"].contains word || (place.hasLoops && loopWords.contains word)

/-- A statement that begins with the word ends with its last brace. -/
def closesItself (word : String) : Bool :=
  ["try", "if", "switch", "while", "loop", "for"].contains word

mutual

def parseExpr : Nat → Place → Nat → Parser Expr
  | 0, _, _ => fail
  | fuel + 1, place, level => do
    let level ← deeper level
    let left ← parseUnary fuel place level
    parseOperators fuel place level 1 left

def parseOperators : Nat → Place → Nat → Nat → Expr → Parser Expr
  | 0, _, _, _, _ => fail
  | fuel + 1, place, level, bound, left => do
    match operatorSign? (← peek?) with
    | none => pure left
    | some sign =>
      let strength := precedence sign
      if strength < bound || (strength = bound && !bindsRight sign) then pure left
      else do
        skip
        let operand ← parseUnary fuel place level
        let next := ((operatorSign? (← peek?)).map precedence).getD 0
        let right ←
          if (strength = next && bindsRight sign) || strength < next then
            parseOperators fuel place level strength operand
          else pure operand
        let level ← deeper level
        let whole ← applyOperator sign left right
        parseOperators fuel place level bound whole

def parseUnary : Nat → Place → Nat → Parser Expr
  | 0, _, _ => fail
  | fuel + 1, place, level => do
    match ← peek? with
    | some (.symbol sign) =>
      if ["-", "+", "!"].contains sign then do
        skip
        let level ← deeper level
        let operand ← parseUnary fuel place level
        pure (applySign sign operand)
      else parseChain fuel place level
    | _ => parseChain fuel place level

def parseChain : Nat → Place → Nat → Parser Expr
  | 0, _, _ => fail
  | fuel + 1, place, level => do
    let base ← parsePrimary fuel place level
    let steps ← parseSteps fuel place level base true
    pure (if steps.isEmpty then base else .chain base steps)

/-- Steps after a base. Whether a literal may be indexed is checked at the first step. -/
def parseSteps : Nat → Place → Nat → Expr → Bool → Parser (List Step)
  | 0, _, _, _, _ => fail
  | fuel + 1, place, level, base, atBase => do
    match ← peek? with
    | some (.symbol sign) =>
      if sign = "." || sign = "?." then do
        skip
        let _ ← deeper level
        let step ← parseMember fuel place level (sign = "?.")
        let steps ← parseSteps fuel place level base false
        pure (step :: steps)
      else if sign = "[" || sign = "?[" then do
        skip
        let level' ← deeper level
        let position ← parseExpr fuel place level'
        expect "]"
        let subject := if atBase then base else .variable ""
        ensure (mayIndex subject position)
        let steps ← parseSteps fuel place level base false
        pure (.index (sign = "?[") position :: steps)
      else pure []
    | _ => pure []

def parseMember : Nat → Place → Nat → Bool → Parser Step
  | 0, _, _, _ => fail
  | fuel + 1, place, level, optional => do
    match ← peek? with
    | some (.name name) => do
      skip
      if ← accept "(" then
        let arguments ← parseArguments fuel place level
        pure (.method optional name arguments)
      else pure (.property optional name)
    | some (.reserved name) => do
      skip
      ensure (methodWords.contains name)
      expect "("
      let arguments ← parseArguments fuel place level
      pure (.method optional name arguments)
    | _ => fail

def parseArguments : Nat → Place → Nat → Parser (List Expr)
  | 0, _, _ => fail
  | fuel + 1, place, level => do
    if ← accept ")" then pure []
    else do
      let level' ← deeper level
      let argument ← parseExpr fuel place level'
      if ← accept "," then
        let arguments ← parseArguments fuel place level
        pure (argument :: arguments)
      else do
        expect ")"
        pure [argument]

def parseItems : Nat → Place → Nat → Parser (List Expr)
  | 0, _, _ => fail
  | fuel + 1, place, level => do
    if ← accept "]" then pure []
    else do
      let item ← parseExpr fuel place level
      if ← accept "," then
        let items ← parseItems fuel place level
        pure (item :: items)
      else do
        expect "]"
        pure [item]

def parseEntries : Nat → Place → Nat → Parser (List (String × Expr))
  | 0, _, _ => fail
  | fuel + 1, place, level => do
    if ← accept "\x7d" then pure []
    else do
      let key ←
        match ← peek? with
        | some (.name name) => do
          skip
          pure name
        | some (.text content) => do
          skip
          pure content
        | _ => fail
      expect ":"
      let value ← parseExpr fuel place level
      if ← accept "," then
        let entries ← parseEntries fuel place level
        ensure (!(entries.map Prod.fst).contains key)
        pure ((key, value) :: entries)
      else do
        expect "\x7d"
        pure [(key, value)]

/-- What stands in braces. -/
def parseBlock : Nat → Place → Nat → Parser Expr
  | 0, _, _ => fail
  | fuel + 1, place, level => do
    expect "\x7b"
    let level ← deeper level
    let body ←
      if place.isText then do
        let statements ← parseSequence fuel place level
        pure (.block statements)
      else parseStatement fuel place level
    expect "\x7d"
    pure body

/-- Statements up to a closing brace or the end of the text. -/
def parseSequence : Nat → Place → Nat → Parser (List Expr)
  | 0, _, _ => fail
  | fuel + 1, place, level => do
    match ← peek? with
    | none => pure []
    | some (.symbol "\x7d") => pure []
    | some (.symbol ";") => do
      skip
      parseSequence fuel place level
    | some _ => do
      let (statement, closed) ← parseAny fuel place level
      let more ← accept ";"
      if more || closed then do
        let rest ← parseSequence fuel place level
        pure (statement :: rest)
      else pure [statement]

/-- A statement of any kind, and whether it needs no semicolon before the next one. -/
def parseAny : Nat → Place → Nat → Parser (Expr × Bool)
  | 0, _, _ => fail
  | fuel + 1, place, level => do
    match ← peek? with
    | some (.keyword word) =>
      if statementWords.contains word then do
        skip
        let statement ← parseWord fuel place level word
        pure (statement, closesItself word)
      else do
        let statement ← parseStatement fuel place level
        pure (statement, false)
    | some (.symbol "\x7b") => do
      let statement ← parseBlock fuel place level
      pure (statement, true)
    | _ => do
      let statement ← parseStatement fuel place level
      pure (statement, false)

/-- What a word begins, after the word. -/
def parseWord : Nat → Place → Nat → String → Parser Expr
  | 0, _, _, _ => fail
  | fuel + 1, place, level, word => do
    match word with
    | "let" => parseDeclaration fuel place level false
    | "const" => parseDeclaration fuel place level true
    | "return" => do
      let value ← parseCarried fuel place level
      pure (.jump .returning value)
    | "throw" => do
      let value ← parseCarried fuel place level
      pure (.jump .throwing value)
    | "break" => do
      ensure place.isLooping
      let value ← parseCarried fuel place level
      pure (.jump .breaking value)
    | "continue" => do
      ensure place.isLooping
      pure (.jump .continuing (.constant .unit))
    | "try" => parseAttempt fuel place level
    | "if" => parseChoice fuel place level
    | "switch" => parseSelect fuel place level
    | "while" => do
      let level ← deeper level
      let condition ← parseExpr fuel place level
      ensure (mayBeCondition condition)
      let body ← parseBlock fuel place.inLoop level
      pure (.loop false true condition body)
    | "loop" => do
      let level ← deeper level
      let body ← parseBlock fuel place.inLoop level
      pure (.loop false true (.constant (.bool true)) body)
    | "do" => do
      let level ← deeper level
      let body ← parseBlock fuel place.inLoop level
      let wanted ← acceptWord "while"
      let unwanted ← if wanted then pure true else acceptWord "until"
      ensure unwanted
      let condition ← parseExpr fuel place level
      ensure (mayBeCondition condition)
      pure (.loop true wanted condition body)
    | "for" => do
      let level ← deeper level
      let (item, counter) ← parseItemNames
      ensure (← acceptWord "in")
      let source ← parseExpr fuel place level
      let body ← parseBlock fuel place.inLoop level
      pure (.each item counter source body)
    | _ => fail

def parseDeclaration : Nat → Place → Nat → Bool → Parser Expr
  | 0, _, _, _ => fail
  | fuel + 1, place, level, constant => do
    let name ← expectName
    if ← accept "=" then do
      let value ← parseExpr fuel place level
      pure (.declare name constant value)
    else pure (.declare name constant (.constant .unit))

/-- The value that a jump carries, if one is written. -/
def parseCarried : Nat → Place → Nat → Parser Expr
  | 0, _, _ => fail
  | fuel + 1, place, level => do
    match ← peek? with
    | none => pure (.constant .unit)
    | some (.symbol "\x7d") => pure (.constant .unit)
    | some (.symbol ";") => pure (.constant .unit)
    | some _ => parseExpr fuel place level

def parseAttempt : Nat → Place → Nat → Parser Expr
  | 0, _, _ => fail
  | fuel + 1, place, level => do
    let level ← deeper level
    let body ← parseBlock fuel place level
    ensure (← acceptWord "catch")
    if ← accept "(" then do
      let name ← expectName
      expect ")"
      let handler ← parseBlock fuel place level
      pure (.attempt body (some name) handler)
    else do
      let handler ← parseBlock fuel place level
      pure (.attempt body none handler)

def parseStatement : Nat → Place → Nat → Parser Expr
  | 0, _, _ => fail
  | fuel + 1, place, level => do
    let target ← parseExpr fuel place level
    match ← peek? with
    | some (.symbol sign) =>
      if assignmentSigns.contains sign then do
        skip
        ensure (isAssignable target)
        let value ← parseExpr fuel place level
        pure (.assign sign target value)
      else pure target
    | _ => pure target

def parseChoice : Nat → Place → Nat → Parser Expr
  | 0, _, _ => fail
  | fuel + 1, place, level => do
    let level ← deeper level
    let condition ← parseExpr fuel place level
    ensure (mayBeCondition condition)
    let positive ← parseBlock fuel place level
    if ← acceptWord "else" then
      if ← acceptWord "if" then
        let negative ← parseChoice fuel place level
        pure (.choice condition positive negative)
      else do
        let negative ← parseBlock fuel place level
        pure (.choice condition positive negative)
    else pure (.choice condition positive (.constant .unit))

def parseCaseValues : Nat → Place → Nat → Parser (List Value)
  | 0, _, _ => fail
  | fuel + 1, place, level => do
    let operand ← parseUnary fuel place level
    let whole ← parseOperators fuel place level 31 operand
    match literalValue? whole with
    | none => fail
    | some value =>
      if ← accept "|" then
        let values ← parseCaseValues fuel place level
        pure (value :: values)
      else pure [value]

def parseSelect : Nat → Place → Nat → Parser Expr
  | 0, _, _ => fail
  | fuel + 1, place, level => do
    let level ← deeper level
    let subject ← parseExpr fuel place level
    expect "\x7b"
    let (cases, otherwise) ← parseCases fuel place level
    pure (.select subject cases (otherwise.getD (.constant .unit)))

/-- The outcome of a case, and whether it needs no comma before the next case. -/
def parseOutcome : Nat → Place → Nat → Parser (Expr × Bool)
  | 0, _, _ => fail
  | fuel + 1, place, level =>
    if place.isText then parseAny fuel place level
    else do
      let outcome ← parseExpr fuel place level
      pure (outcome, false)

def parseCases :
    Nat → Place → Nat → Parser (List (List Value × Expr × Expr) × Option Expr)
  | 0, _, _ => fail
  | fuel + 1, place, level => do
    if ← accept "\x7d" then pure ([], none)
    else do
      let level' ← deeper level
      if ← accept "_" then do
        expect "=>"
        let (outcome, _) ← parseOutcome fuel place level'
        let _ ← accept ","
        expect "\x7d"
        pure ([], some outcome)
      else do
        let values ← parseCaseValues fuel place level'
        let guard ←
          if ← acceptWord "if" then parseExpr fuel place level'
          else pure (.constant (.bool true))
        expect "=>"
        let (outcome, closed) ← parseOutcome fuel place level'
        let more ← accept ","
        let (cases, otherwise) ←
          if more || closed then parseCases fuel place level
          else do
            expect "\x7d"
            pure ([], none)
        pure ((values, guard, outcome) :: cases, otherwise)

def parseParameters : Nat → Parser (List String)
  | 0 => fail
  | fuel + 1 => do
    if ← accept "|" then pure []
    else do
      let name ← expectName
      if ← accept "," then
        let names ← parseParameters fuel
        ensure (!names.contains name)
        pure (name :: names)
      else do
        expect "|"
        pure [name]

/-- A function after its parameters. Its free variables are captured where it stands. -/
def parseFunction : Nat → Place → Nat → List String → Parser Expr
  | 0, _, _, _ => fail
  | fuel + 1, place, level, parameters => do
    ensure !place.isText
    let level ← deeper level
    let (body, _) ← parseAny fuel .function level
    let captured := distinct (body.variables.filter fun name => !parameters.contains name)
    let index ← addFunction ⟨captured ++ parameters, body⟩
    pure (.function index captured)

def parseSegments : Nat → Place → Nat → Parser (List Expr)
  | 0, _, _ => fail
  | fuel + 1, place, level => do
    let hole ← parseBlock fuel place level
    match ← peek? with
    | some (.part content more) => do
      skip
      let text := if content.isEmpty then [] else [.constant (.text content)]
      let rest ← if more then parseSegments fuel place level else pure []
      pure (hole :: text ++ rest)
    | _ => fail

def parsePrimary : Nat → Place → Nat → Parser Expr
  | 0, _, _ => fail
  | fuel + 1, place, level => do
    match ← peek? with
    | none => fail
    | some (.symbol "\x7b") => do
      ensure place.hasLoops
      parseBlock fuel place level
    | some token => do
      skip
      match token with
      | .int number => pure (.constant (.int number))
      | .float number => pure (.constant (.float number))
      | .char letter => pure (.constant (.char letter))
      | .text content => pure (.constant (.text content))
      | .part content more =>
        if !more then pure (.constant (.text content))
        else do
          let level ← deeper level
          let segments ← parseSegments fuel place level
          let segments := segments.filter fun segment => !isEmptyText segment
          let segments :=
            if content.isEmpty then segments else .constant (.text content) :: segments
          pure (if segments.isEmpty then .constant (.text "") else .joined segments)
      | .name name => do
        if ← accept "(" then
          let arguments ← parseArguments fuel place level
          pure (.call name arguments)
        else pure (.variable name)
      | .reserved name =>
        if name = "this" then do
          ensure (place = .function)
          pure .self
        else do
          ensure (callableWords.contains name)
          expect "("
          let arguments ← parseArguments fuel place level
          pure (.call name arguments)
      | .keyword "true" => pure (.constant (.bool true))
      | .keyword "false" => pure (.constant (.bool false))
      | .keyword word => do
        ensure (place.admits word)
        parseWord fuel place level word
      | .symbol "(" =>
        if ← accept ")" then pure (.constant .unit)
        else do
          let level ← deeper level
          let whole ← parseExpr fuel place level
          expect ")"
          pure whole
      | .symbol "[" => do
        let level ← deeper level
        let items ← parseItems fuel place level
        pure (.array items)
      | .symbol "#\x7b" => do
        let level ← deeper level
        let entries ← parseEntries fuel place level
        pure (.map entries)
      | .symbol "|" => do
        let parameters ← parseParameters fuel
        parseFunction fuel place level parameters
      | .symbol "||" => parseFunction fuel place level []
      | .symbol _ => fail

end

def parse? (tokens : List Token) : Option Compiled := do
  let fuel := 16 * tokens.length + 64
  let (body, pending) ← parseExpr fuel .hole 0 ⟨tokens, []⟩
  if pending.tokens.isEmpty then some ⟨body, pending.functions⟩ else none

/-- The statements of a text to evaluate. -/
def parseStatements? (tokens : List Token) : Option (List Expr) := do
  let (statements, pending) ← parseSequence (16 * tokens.length + 64) (.text false) 0 ⟨tokens, []⟩
  if pending.tokens.isEmpty then some statements else none

end Recast.Script
