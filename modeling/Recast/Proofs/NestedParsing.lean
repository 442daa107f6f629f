import Recast.Proofs.HoleParsing

set_option autoImplicit false

/-!
# Expressions before other tokens

An expression that is read from its tokens alone is read just the same when it stands in a hole:
before the brace that closes the hole, at any level that leaves room, and with more fuel.
-/

namespace Recast.Script

open Recast.Script.Parser

/-- What may follow an expression: nothing, or the brace that closes its hole. -/
def ClosesHole (tokens : List Token) : Prop :=
  ∀ token ∈ tokens.head?, token = .symbol "\x7d"

/-- The tokens that a parser leaves. If it leaves none, the last one that it read was no full stop,
because a member follows a full stop. -/
def Leaves (tokens rest : List Token) : Prop :=
  rest <:+ tokens ∧ (rest = [] → tokens.getLast? ≠ some (.symbol "."))

theorem Leaves.refl (tokens : List Token) : Leaves tokens tokens := by
  constructor
  · exact List.suffix_rfl
  · rintro rfl last
    cases last

theorem Leaves.trans {tokens middle rest : List Token} (first : Leaves tokens middle)
    (second : Leaves middle rest) : Leaves tokens rest := by
  obtain ⟨front, rfl⟩ := first.1
  constructor
  · exact second.1.trans first.1
  · intro finished
    cases middle with
    | nil => exact first.2 rfl
    | cons token middle =>
      rw [List.getLast?_append_of_ne_nil _ (List.cons_ne_nil token middle)]
      exact second.2 finished

theorem Leaves.cons {token : Token} (noStop : token ≠ .symbol ".") (rest : List Token) :
    Leaves (token :: rest) rest := by
  constructor
  · exact List.suffix_cons token rest
  · rintro rfl last
    exact noStop (Option.some.inj last)

/-- What the first parser reads from the tokens the second one reads from them before a tail, and
leaves the tail. -/
def ReadsBefore (tail : List Token) {α : Type} (parser other : Parser α) (tokens : List Token) :
    Prop :=
  ∀ functions value rest after, parser ⟨tokens, functions⟩ = some (value, ⟨rest, after⟩) →
    Leaves tokens rest ∧ other ⟨tokens ++ tail, functions⟩ = some (value, ⟨rest ++ tail, after⟩)

/-- The parser does not go on without a token. -/
def NeedsToken {α : Type} (parser : Parser α) : Prop :=
  ∀ functions, parser ⟨[], functions⟩ = none

namespace NeedsToken

variable {α β : Type}

theorem bind {parser : Parser α} (needs : NeedsToken parser) (next : α → Parser β) :
    NeedsToken (parser >>= next) :=
  fun functions => bind_none (needs functions)

theorem deeper {level : Nat} {next : Nat → Parser α} (needs : NeedsToken (next (level + 1))) :
    NeedsToken (Script.deeper level >>= next) := by
  intro functions
  by_cases room : level < 64
  · rw [bind_some (deeper_of_lt room _)]
    exact needs functions
  · apply bind_none
    rw [Script.deeper, maxLevel, if_neg room]
    rfl

theorem accept {sign : String} {next : Bool → Parser α} (needs : NeedsToken (next false)) :
    NeedsToken (Parser.accept sign >>= next) :=
  fun functions => needs functions

theorem member (fuel : Nat) (place : Place) (level : Nat) (optional : Bool) :
    NeedsToken (parseMember fuel place level optional) := by
  intro functions
  cases fuel <;> rw [parseMember] <;> rfl

theorem unary (fuel : Nat) (place : Place) (level : Nat) :
    NeedsToken (parseUnary fuel place level) := by
  have primary : ∀ fuel, NeedsToken (parsePrimary fuel place level) := by
    intro fuel functions
    cases fuel <;> rw [parsePrimary] <;> rfl
  have chain : ∀ fuel, NeedsToken (parseChain fuel place level) := by
    intro fuel
    cases fuel <;> rw [parseChain]
    · exact fun _ => rfl
    · exact (primary _).bind _
  cases fuel <;> rw [parseUnary]
  · exact fun _ => rfl
  · exact chain _

theorem statement (fuel : Nat) (place : Place) (level : Nat) :
    NeedsToken (parseStatement fuel place level) := by
  have expr : ∀ fuel, NeedsToken (parseExpr fuel place level) := by
    intro fuel
    cases fuel <;> rw [parseExpr]
    · exact fun _ => rfl
    · exact deeper ((unary _ place (level + 1)).bind _)
  cases fuel <;> rw [parseStatement]
  · exact fun _ => rfl
  · exact (expr _).bind _

theorem caseValues (fuel : Nat) (place : Place) (level : Nat) :
    NeedsToken (parseCaseValues fuel place level) := by
  cases fuel <;> rw [parseCaseValues]
  · exact fun _ => rfl
  · exact (unary _ place level).bind _

end NeedsToken

theorem accept_ne {sign : String} {token : Token} {functions : List Function}
    (other : token ≠ .symbol sign) (rest : List Token) :
    accept sign ⟨token :: rest, functions⟩ = some (false, ⟨token :: rest, functions⟩) := by
  cases token with
  | symbol found => exact accept_other (fun same => other (congrArg Token.symbol same)) rest
  | _ => rfl

namespace ReadsBefore

variable {tail tokens : List Token} {α β : Type}

theorem pure (value : α) : ReadsBefore tail (Pure.pure value) (Pure.pure value) tokens := by
  intro functions found rest after read
  cases read
  exact ⟨Leaves.refl tokens, rfl⟩

theorem fail (other : Parser α) : ReadsBefore tail Parser.fail other tokens := by
  intro functions found rest after read
  cases read

theorem bind {parser other : Parser α} {next otherNext : α → Parser β}
    (first : ReadsBefore tail parser other tokens)
    (second : ∀ value rest, ReadsBefore tail (next value) (otherNext value) rest) :
    ReadsBefore tail (parser >>= next) (other >>= otherNext) tokens := by
  intro functions found rest after read
  cases began : parser ⟨tokens, functions⟩ with
  | none =>
    rw [bind_none began] at read
    cases read
  | some result =>
    obtain ⟨value, middle, between⟩ := result
    rw [bind_some began] at read
    obtain ⟨leaves, same⟩ := first functions value middle between began
    obtain ⟨leavesLater, later⟩ := second value middle between found rest after read
    rw [bind_some same]
    exact ⟨leaves.trans leavesLater, later⟩

theorem deeper {level otherLevel : Nat} (bound : otherLevel ≤ level)
    {next otherNext : Nat → Parser α}
    (second : ReadsBefore tail (next (level + 1)) (otherNext (otherLevel + 1)) tokens) :
    ReadsBefore tail (Script.deeper level >>= next) (Script.deeper otherLevel >>= otherNext)
      tokens := by
  intro functions found rest after read
  by_cases room : level < 64
  · rw [bind_some (deeper_of_lt room _)] at read
    rw [bind_some (deeper_of_lt (Nat.lt_of_le_of_lt bound room) _)]
    exact second functions found rest after read
  · rw [Script.deeper, maxLevel, if_neg room] at read
    cases read

theorem ensure {condition : Bool} {next otherNext : Unit → Parser α}
    (second : ReadsBefore tail (next ()) (otherNext ()) tokens) :
    ReadsBefore tail (Parser.ensure condition >>= next) (Parser.ensure condition >>= otherNext)
      tokens := by
  cases condition with
  | true => exact second
  | false =>
    intro functions found rest after read
    cases read

theorem addFunction (function : Function) :
    ReadsBefore tail (Parser.addFunction function) (Parser.addFunction function) tokens := by
  intro functions found rest after read
  cases read
  exact ⟨Leaves.refl tokens, rfl⟩

theorem skip {token : Token} (noStop : token ≠ .symbol ".") {rest : List Token}
    {next otherNext : Unit → Parser α} (second : ReadsBefore tail (next ()) (otherNext ()) rest) :
    ReadsBefore tail (Parser.skip >>= next) (Parser.skip >>= otherNext) (token :: rest) := by
  intro functions found left after read
  obtain ⟨leaves, same⟩ := second functions found left after read
  exact ⟨(Leaves.cons noStop rest).trans leaves, same⟩

/-- After a full stop something must follow. -/
theorem skipStop {token : Token} {rest : List Token} {next otherNext : Unit → Parser α}
    (needs : NeedsToken (next ()))
    (second : ReadsBefore tail (next ()) (otherNext ()) rest) :
    ReadsBefore tail (Parser.skip >>= next) (Parser.skip >>= otherNext) (token :: rest) := by
  intro functions found left after read
  obtain ⟨leaves, same⟩ := second functions found left after read
  refine ⟨?_, same⟩
  cases rest with
  | nil =>
    have failed : (Parser.skip >>= next) ⟨[token], functions⟩ = none := needs functions
    rw [failed] at read
    cases read
  | cons second rest =>
    constructor
    · exact leaves.1.trans (List.suffix_cons token _)
    · intro finished
      rw [List.getLast?_cons_cons]
      exact leaves.2 finished

theorem applyOperator (sign : String) (left right : Expr) :
    ReadsBefore tail (Script.applyOperator sign left right) (Script.applyOperator sign left right)
      tokens := by
  unfold Script.applyOperator
  split
  next => exact ensure (pure _)
  next =>
    split
    next => exact pure _
    next =>
      split
      next => exact pure _
      next =>
        split
        next => exact pure _
        next => exact pure _

variable (closes : ClosesHole tail)

include closes

/-- A parser that decides by the next token finds none at its end, or the brace. -/
theorem peek? {next otherNext : Option Token → Parser α}
    (atEnd : ReadsBefore tail (next none) (otherNext none) [])
    (atBrace : ReadsBefore tail (next none) (otherNext (some (.symbol "\x7d"))) [])
    (onToken : ∀ token rest,
      ReadsBefore tail (next (some token)) (otherNext (some token)) (token :: rest)) :
    ReadsBefore tail (Parser.peek? >>= next) (Parser.peek? >>= otherNext) tokens := by
  cases tokens with
  | cons token rest => exact onToken token rest
  | nil =>
    have ends : ReadsBefore tail (next none) (otherNext tail.head?) [] := by
      cases first : tail.head? with
      | none => exact atEnd
      | some token =>
        rw [closes token first]
        exact atBrace
    exact ends

theorem accept {sign : String} (noBrace : sign ≠ "\x7d") (noStop : sign ≠ ".") :
    ReadsBefore tail (Parser.accept sign) (Parser.accept sign) tokens := by
  apply peek? closes
  · exact pure false
  · dsimp only
    rw [if_neg (Ne.symm noBrace)]
    exact pure false
  · intro token rest
    cases token with
    | symbol found =>
      dsimp only
      split
      next same =>
        apply skip
        · rw [same]
          exact fun equal => noStop (Token.symbol.inj equal)
        · exact pure true
      next => exact pure false
    | _ => exact pure false

omit closes in
theorem expect {sign : String} (noStop : sign ≠ ".") :
    ReadsBefore tail (Parser.expect sign) (Parser.expect sign) tokens := by
  intro functions found rest after read
  cases tokens with
  | nil => cases read
  | cons token left =>
    cases token with
    | symbol other =>
      by_cases same : other = sign
      · subst same
        have stops : Token.symbol other ≠ .symbol "." :=
          fun equal => noStop (Token.symbol.inj equal)
        rw [expect_symbol] at read
        cases read
        exact ⟨Leaves.cons stops rest, expect_symbol other _⟩
      · rw [Parser.expect, bind_some (accept_other same left)] at read
        cases read
    | _ => cases read

omit closes in
/-- A closing brace among the tokens ends a list. At their end there is none to take. -/
theorem acceptBrace {next otherNext : Bool → Parser α}
    (needs : NeedsToken (next false))
    (onBrace : ∀ rest, ReadsBefore tail (next true) (otherNext true) rest)
    (onOther : ReadsBefore tail (next false) (otherNext false) tokens) :
    ReadsBefore tail (Parser.accept "\x7d" >>= next) (Parser.accept "\x7d" >>= otherNext)
      tokens := by
  intro functions found rest after read
  cases tokens with
  | nil =>
    rw [needs.accept functions] at read
    cases read
  | cons token left =>
    by_cases brace : token = .symbol "\x7d"
    · subst brace
      rw [bind_some (accept_symbol _ _)] at read
      obtain ⟨leaves, same⟩ := onBrace left functions found rest after read
      rw [List.cons_append, bind_some (accept_symbol _ _)]
      have noStop : Token.symbol "\x7d" ≠ .symbol "." := by simp
      exact ⟨(Leaves.cons noStop left).trans leaves, same⟩
    · rw [bind_some (accept_ne brace left)] at read
      rw [List.cons_append, bind_some (accept_ne brace _)]
      exact onOther functions found rest after read

theorem acceptWord (word : String) :
    ReadsBefore tail (Parser.acceptWord word) (Parser.acceptWord word) tokens := by
  apply peek? closes
  · exact pure false
  · exact pure false
  · intro token rest
    cases token with
    | keyword found =>
      dsimp only
      split
      next =>
        apply skip
        · exact fun equal => Token.noConfusion equal
        · exact pure true
      next => exact pure false
    | _ => exact pure false

theorem expectName : ReadsBefore tail Parser.expectName Parser.expectName tokens := by
  apply peek? closes
  · exact fail _
  · exact fail _
  · intro token rest
    cases token with
    | name name =>
      apply skip
      · exact fun equal => Token.noConfusion equal
      · exact pure name
    | _ => exact fail _

theorem itemNames : ReadsBefore tail parseItemNames parseItemNames tokens := by
  unfold parseItemNames
  apply bind (accept closes (by decide) (by decide))
  intro several rest
  cases several with
  | true =>
    apply bind (expectName closes)
    intro item rest
    apply bind (expect (by decide))
    intro _ rest
    apply bind (expectName closes)
    intro counter rest
    apply bind (expect (by decide))
    exact fun _ rest => ensure (pure _)
  | false =>
    apply bind (expectName closes)
    exact fun item rest => pure _

end ReadsBefore

/-! ## Every parser -/

/-- Whatever the parsers read with some fuel, they read with other fuel before a tail, and no
deeper in. -/
structure Nests (tail : List Token) (fuel otherFuel : Nat) : Prop where
  expr : ∀ (place : Place) {level otherLevel : Nat}, otherLevel ≤ level → ∀ tokens,
    ReadsBefore tail (parseExpr fuel place level) (parseExpr otherFuel place otherLevel) tokens
  operators : ∀ (place : Place) {level otherLevel : Nat}, otherLevel ≤ level →
    ∀ (strength : Nat) (left : Expr) tokens,
      ReadsBefore tail (parseOperators fuel place level strength left)
        (parseOperators otherFuel place otherLevel strength left) tokens
  unary : ∀ (place : Place) {level otherLevel : Nat}, otherLevel ≤ level → ∀ tokens,
    ReadsBefore tail (parseUnary fuel place level) (parseUnary otherFuel place otherLevel) tokens
  chain : ∀ (place : Place) {level otherLevel : Nat}, otherLevel ≤ level → ∀ tokens,
    ReadsBefore tail (parseChain fuel place level) (parseChain otherFuel place otherLevel) tokens
  steps : ∀ (place : Place) {level otherLevel : Nat}, otherLevel ≤ level →
    ∀ (base : Expr) (atBase : Bool) tokens,
      ReadsBefore tail (parseSteps fuel place level base atBase)
        (parseSteps otherFuel place otherLevel base atBase) tokens
  member : ∀ (place : Place) {level otherLevel : Nat}, otherLevel ≤ level →
    ∀ (optional : Bool) tokens,
      ReadsBefore tail (parseMember fuel place level optional)
        (parseMember otherFuel place otherLevel optional) tokens
  arguments : ∀ (place : Place) {level otherLevel : Nat}, otherLevel ≤ level → ∀ tokens,
    ReadsBefore tail (parseArguments fuel place level)
      (parseArguments otherFuel place otherLevel) tokens
  items : ∀ (place : Place) {level otherLevel : Nat}, otherLevel ≤ level → ∀ tokens,
    ReadsBefore tail (parseItems fuel place level) (parseItems otherFuel place otherLevel) tokens
  entries : ∀ (place : Place) {level otherLevel : Nat}, otherLevel ≤ level → ∀ tokens,
    ReadsBefore tail (parseEntries fuel place level) (parseEntries otherFuel place otherLevel)
      tokens
  block : ∀ (place : Place) {level otherLevel : Nat}, otherLevel ≤ level → ∀ tokens,
    ReadsBefore tail (parseBlock fuel place level) (parseBlock otherFuel place otherLevel) tokens
  sequence : ∀ (place : Place) {level otherLevel : Nat}, otherLevel ≤ level → ∀ tokens,
    ReadsBefore tail (parseSequence fuel place level) (parseSequence otherFuel place otherLevel)
      tokens
  any : ∀ (place : Place) {level otherLevel : Nat}, otherLevel ≤ level → ∀ tokens,
    ReadsBefore tail (parseAny fuel place level) (parseAny otherFuel place otherLevel) tokens
  word : ∀ (place : Place) {level otherLevel : Nat}, otherLevel ≤ level →
    ∀ (word : String) tokens,
      ReadsBefore tail (parseWord fuel place level word) (parseWord otherFuel place otherLevel word)
        tokens
  declaration : ∀ (place : Place) {level otherLevel : Nat}, otherLevel ≤ level →
    ∀ (constant : Bool) tokens,
      ReadsBefore tail (parseDeclaration fuel place level constant)
        (parseDeclaration otherFuel place otherLevel constant) tokens
  carried : ∀ (place : Place) {level otherLevel : Nat}, otherLevel ≤ level → ∀ tokens,
    ReadsBefore tail (parseCarried fuel place level) (parseCarried otherFuel place otherLevel)
      tokens
  attempt : ∀ (place : Place) {level otherLevel : Nat}, otherLevel ≤ level → ∀ tokens,
    ReadsBefore tail (parseAttempt fuel place level) (parseAttempt otherFuel place otherLevel)
      tokens
  statement : ∀ (place : Place) {level otherLevel : Nat}, otherLevel ≤ level → ∀ tokens,
    ReadsBefore tail (parseStatement fuel place level)
      (parseStatement otherFuel place otherLevel) tokens
  choice : ∀ (place : Place) {level otherLevel : Nat}, otherLevel ≤ level → ∀ tokens,
    ReadsBefore tail (parseChoice fuel place level) (parseChoice otherFuel place otherLevel) tokens
  caseValues : ∀ (place : Place) {level otherLevel : Nat}, otherLevel ≤ level → ∀ tokens,
    ReadsBefore tail (parseCaseValues fuel place level)
      (parseCaseValues otherFuel place otherLevel) tokens
  select : ∀ (place : Place) {level otherLevel : Nat}, otherLevel ≤ level → ∀ tokens,
    ReadsBefore tail (parseSelect fuel place level) (parseSelect otherFuel place otherLevel) tokens
  outcome : ∀ (place : Place) {level otherLevel : Nat}, otherLevel ≤ level → ∀ tokens,
    ReadsBefore tail (parseOutcome fuel place level) (parseOutcome otherFuel place otherLevel)
      tokens
  cases : ∀ (place : Place) {level otherLevel : Nat}, otherLevel ≤ level → ∀ tokens,
    ReadsBefore tail (parseCases fuel place level) (parseCases otherFuel place otherLevel) tokens
  parameters : ∀ tokens,
    ReadsBefore tail (parseParameters fuel) (parseParameters otherFuel) tokens
  function : ∀ (place : Place) {level otherLevel : Nat}, otherLevel ≤ level →
    ∀ (parameters : List String) tokens,
      ReadsBefore tail (parseFunction fuel place level parameters)
        (parseFunction otherFuel place otherLevel parameters) tokens
  segments : ∀ (place : Place) {level otherLevel : Nat}, otherLevel ≤ level → ∀ tokens,
    ReadsBefore tail (parseSegments fuel place level) (parseSegments otherFuel place otherLevel)
      tokens
  primary : ∀ (place : Place) {level otherLevel : Nat}, otherLevel ≤ level → ∀ tokens,
    ReadsBefore tail (parsePrimary fuel place level) (parsePrimary otherFuel place otherLevel)
      tokens

/-- The outcome of a case, after its values and its condition, and the cases that follow. -/
def parseCaseOutcome (fuel : Nat) (place : Place) (level : Nat) (values : List Value)
    (guard : Expr) : Parser (List (List Value × Expr × Expr) × Option Expr) := do
  expect "=>"
  let (outcome, closed) ← parseOutcome fuel place (level + 1)
  let more ← accept ","
  let (cases, otherwise) ←
    if more || closed then parseCases fuel place level
    else do
      expect "\x7d"
      pure ([], none)
  pure ((values, guard, outcome) :: cases, otherwise)

namespace Nests

variable {tail : List Token} {fuel otherFuel level otherLevel : Nat}
  (closes : ClosesHole tail) (nests : Nests tail fuel otherFuel) (place : Place)
  (bound : otherLevel ≤ level) (tokens : List Token)

section

include nests bound

theorem expr_step : ReadsBefore tail (parseExpr (fuel + 1) place level)
    (parseExpr (otherFuel + 1) place otherLevel) tokens := by
  rw [parseExpr, parseExpr]
  apply ReadsBefore.deeper bound
  apply ReadsBefore.bind (nests.unary place (Nat.succ_le_succ bound) tokens)
  exact fun left rest => nests.operators place (Nat.succ_le_succ bound) 1 left rest

theorem chain_step : ReadsBefore tail (parseChain (fuel + 1) place level)
    (parseChain (otherFuel + 1) place otherLevel) tokens := by
  rw [parseChain, parseChain]
  apply ReadsBefore.bind (nests.primary place bound tokens)
  intro base rest
  apply ReadsBefore.bind (nests.steps place bound base true rest)
  exact fun steps rest => .pure _

theorem block_step : ReadsBefore tail (parseBlock (fuel + 1) place level)
    (parseBlock (otherFuel + 1) place otherLevel) tokens := by
  rw [parseBlock, parseBlock]
  apply ReadsBefore.bind (.expect (by decide))
  intro _ rest
  apply ReadsBefore.deeper bound
  have ends : ∀ (body : Expr) rest, ReadsBefore tail
      (do
        expect "\x7d"
        pure body)
      (do
        expect "\x7d"
        pure body) rest :=
    fun body rest => .bind (.expect (by decide)) fun _ rest => .pure body
  split
  next =>
    apply ReadsBefore.bind (nests.sequence place (Nat.succ_le_succ bound) rest)
    exact fun statements rest => .bind (.pure _) ends
  next => exact .bind (nests.statement place (Nat.succ_le_succ bound) rest) ends

theorem outcome_step : ReadsBefore tail (parseOutcome (fuel + 1) place level)
    (parseOutcome (otherFuel + 1) place otherLevel) tokens := by
  rw [parseOutcome, parseOutcome]
  split
  next => exact nests.any place bound tokens
  next => exact .bind (nests.expr place bound tokens) fun outcome rest => .pure _

theorem select_step : ReadsBefore tail (parseSelect (fuel + 1) place level)
    (parseSelect (otherFuel + 1) place otherLevel) tokens := by
  rw [parseSelect, parseSelect]
  apply ReadsBefore.deeper bound
  apply ReadsBefore.bind (nests.expr place (Nat.succ_le_succ bound) tokens)
  intro subject rest
  apply ReadsBefore.bind (.expect (by decide))
  intro _ rest
  apply ReadsBefore.bind (nests.cases place (Nat.succ_le_succ bound) rest)
  exact fun found rest => .pure _

end

include closes nests bound

theorem operators_step (strength : Nat) (left : Expr) :
    ReadsBefore tail (parseOperators (fuel + 1) place level strength left)
      (parseOperators (otherFuel + 1) place otherLevel strength left) tokens := by
  rw [parseOperators, parseOperators]
  apply ReadsBefore.peek? closes
  · exact .pure left
  · exact .pure left
  · intro token rest
    cases found : operatorSign? (some token) with
    | none => exact .pure left
    | some sign =>
      have noStop : token ≠ .symbol "." := by
        rintro rfl
        cases found
      dsimp only
      split
      next => exact .pure left
      next =>
        apply ReadsBefore.skip noStop
        apply ReadsBefore.bind (nests.unary place bound rest)
        intro operand rest
        have combines : ∀ (right : Expr) rest, ReadsBefore tail
            (do
              let level ← deeper level
              let whole ← applyOperator sign left right
              parseOperators fuel place level strength whole)
            (do
              let level ← deeper otherLevel
              let whole ← applyOperator sign left right
              parseOperators otherFuel place level strength whole) rest := by
          intro right rest
          apply ReadsBefore.deeper bound
          apply ReadsBefore.bind (.applyOperator sign left right)
          exact fun whole rest => nests.operators place (Nat.succ_le_succ bound) strength whole rest
        have continues : ∀ (next : Nat) rest, ReadsBefore tail
            (do
              let right ←
                if (precedence sign = next && bindsRight sign) || precedence sign < next then
                  parseOperators fuel place level (precedence sign) operand
                else pure operand
              let level ← deeper level
              let whole ← applyOperator sign left right
              parseOperators fuel place level strength whole)
            (do
              let right ←
                if (precedence sign = next && bindsRight sign) || precedence sign < next then
                  parseOperators otherFuel place otherLevel (precedence sign) operand
                else pure operand
              let level ← deeper otherLevel
              let whole ← applyOperator sign left right
              parseOperators otherFuel place level strength whole) rest := by
          intro next rest
          split
          next =>
            exact .bind (nests.operators place bound (precedence sign) operand rest) combines
          next => exact .bind (.pure operand) combines
        apply ReadsBefore.peek? closes
        · exact continues 0 []
        · exact continues 0 []
        · exact fun token rest => continues _ _

theorem unary_step : ReadsBefore tail (parseUnary (fuel + 1) place level)
    (parseUnary (otherFuel + 1) place otherLevel) tokens := by
  rw [parseUnary, parseUnary]
  apply ReadsBefore.peek? closes
  · exact nests.chain place bound []
  · exact nests.chain place bound []
  · intro token rest
    cases token with
    | symbol sign =>
      dsimp only
      split
      next known =>
        apply ReadsBefore.skip
        · rintro ⟨⟩
          cases known
        · apply ReadsBefore.deeper bound
          apply ReadsBefore.bind (nests.unary place (Nat.succ_le_succ bound) rest)
          exact fun operand rest => .pure _
      next => exact nests.chain place bound _
    | _ => exact nests.chain place bound _

theorem steps_step (base : Expr) (atBase : Bool) :
    ReadsBefore tail (parseSteps (fuel + 1) place level base atBase)
      (parseSteps (otherFuel + 1) place otherLevel base atBase) tokens := by
  rw [parseSteps, parseSteps]
  apply ReadsBefore.peek? closes
  · exact .pure []
  · exact .pure []
  · intro token rest
    cases token with
    | symbol sign =>
      dsimp only
      split
      next =>
        apply ReadsBefore.skipStop
        · exact .deeper ((NeedsToken.member fuel place level _).bind _)
        · apply ReadsBefore.deeper bound
          apply ReadsBefore.bind (nests.member place bound _ rest)
          intro step rest
          apply ReadsBefore.bind (nests.steps place bound base false rest)
          exact fun steps rest => .pure _
      next noStop =>
        split
        next =>
          apply ReadsBefore.skip
          · rintro ⟨⟩
            exact noStop rfl
          · apply ReadsBefore.deeper bound
            apply ReadsBefore.bind (nests.expr place (Nat.succ_le_succ bound) rest)
            intro position rest
            apply ReadsBefore.bind (.expect (by decide))
            intro _ rest
            apply ReadsBefore.ensure
            apply ReadsBefore.bind (nests.steps place bound base false rest)
            exact fun steps rest => .pure _
        next => exact .pure []
    | _ => exact .pure []

theorem member_step (optional : Bool) :
    ReadsBefore tail (parseMember (fuel + 1) place level optional)
      (parseMember (otherFuel + 1) place otherLevel optional) tokens := by
  rw [parseMember, parseMember]
  apply ReadsBefore.peek? closes
  · exact .fail _
  · exact .fail _
  · intro token rest
    cases token with
    | name name =>
      apply ReadsBefore.skip
      · exact fun equal => Token.noConfusion equal
      · apply ReadsBefore.bind (.accept closes (by decide) (by decide))
        intro called rest
        cases called with
        | true =>
          apply ReadsBefore.bind (nests.arguments place bound rest)
          exact fun arguments rest => .pure _
        | false => exact .pure _
    | reserved name =>
      apply ReadsBefore.skip
      · exact fun equal => Token.noConfusion equal
      · apply ReadsBefore.ensure
        apply ReadsBefore.bind (.expect (by decide))
        intro _ rest
        apply ReadsBefore.bind (nests.arguments place bound rest)
        exact fun arguments rest => .pure _
    | _ => exact .fail _

theorem arguments_step : ReadsBefore tail (parseArguments (fuel + 1) place level)
    (parseArguments (otherFuel + 1) place otherLevel) tokens := by
  rw [parseArguments, parseArguments]
  apply ReadsBefore.bind (.accept closes (by decide) (by decide))
  intro finished rest
  cases finished with
  | true => exact .pure []
  | false =>
    apply ReadsBefore.deeper bound
    apply ReadsBefore.bind (nests.expr place (Nat.succ_le_succ bound) rest)
    intro argument rest
    apply ReadsBefore.bind (.accept closes (by decide) (by decide))
    intro more rest
    cases more with
    | true =>
      apply ReadsBefore.bind (nests.arguments place bound rest)
      exact fun arguments rest => .pure _
    | false => exact .bind (.expect (by decide)) fun _ rest => .pure _

theorem items_step : ReadsBefore tail (parseItems (fuel + 1) place level)
    (parseItems (otherFuel + 1) place otherLevel) tokens := by
  rw [parseItems, parseItems]
  apply ReadsBefore.bind (.accept closes (by decide) (by decide))
  intro finished rest
  cases finished with
  | true => exact .pure []
  | false =>
    apply ReadsBefore.bind (nests.expr place bound rest)
    intro item rest
    apply ReadsBefore.bind (.accept closes (by decide) (by decide))
    intro more rest
    cases more with
    | true =>
      apply ReadsBefore.bind (nests.items place bound rest)
      exact fun items rest => .pure _
    | false => exact .bind (.expect (by decide)) fun _ rest => .pure _

theorem entries_step : ReadsBefore tail (parseEntries (fuel + 1) place level)
    (parseEntries (otherFuel + 1) place otherLevel) tokens := by
  rw [parseEntries, parseEntries]
  apply ReadsBefore.acceptBrace
  · intro functions
    rfl
  · exact fun rest => .pure []
  · have reads : ∀ (key : String) rest, ReadsBefore tail
        (do
          expect ":"
          let value ← parseExpr fuel place level
          if ← accept "," then
            let entries ← parseEntries fuel place level
            ensure (!(entries.map Prod.fst).contains key)
            pure ((key, value) :: entries)
          else do
            expect "\x7d"
            pure [(key, value)])
        (do
          expect ":"
          let value ← parseExpr otherFuel place otherLevel
          if ← accept "," then
            let entries ← parseEntries otherFuel place otherLevel
            ensure (!(entries.map Prod.fst).contains key)
            pure ((key, value) :: entries)
          else do
            expect "\x7d"
            pure [(key, value)]) rest := by
      intro key rest
      apply ReadsBefore.bind (.expect (by decide))
      intro _ rest
      apply ReadsBefore.bind (nests.expr place bound rest)
      intro value rest
      apply ReadsBefore.bind (.accept closes (by decide) (by decide))
      intro more rest
      cases more with
      | true =>
        apply ReadsBefore.bind (nests.entries place bound rest)
        exact fun entries rest => .ensure (.pure _)
      | false => exact .bind (.expect (by decide)) fun _ rest => .pure _
    rw [if_neg Bool.false_ne_true, if_neg Bool.false_ne_true]
    apply ReadsBefore.peek? closes
    · exact .bind (.fail _) reads
    · exact .bind (.fail _) reads
    · intro token rest
      cases token with
      | name name =>
        apply ReadsBefore.skip
        · exact fun equal => Token.noConfusion equal
        · exact .bind (.pure name) reads
      | text content =>
        apply ReadsBefore.skip
        · exact fun equal => Token.noConfusion equal
        · exact .bind (.pure content) reads
      | _ => exact .bind (.fail _) reads

theorem sequence_step : ReadsBefore tail (parseSequence (fuel + 1) place level)
    (parseSequence (otherFuel + 1) place otherLevel) tokens := by
  rw [parseSequence, parseSequence]
  apply ReadsBefore.peek? closes
  · exact .pure []
  · exact .pure []
  · intro token rest
    split
    next absent => cases absent
    next => exact .pure []
    next found =>
      cases found
      apply ReadsBefore.skip
      · simp
      · exact nests.sequence place bound rest
    next =>
      apply ReadsBefore.bind (nests.any place bound _)
      rintro ⟨statement, closed⟩ rest
      apply ReadsBefore.bind (.accept closes (by decide) (by decide))
      intro more rest
      split
      next =>
        apply ReadsBefore.bind (nests.sequence place bound rest)
        exact fun others rest => .pure _
      next => exact .pure _

theorem any_step : ReadsBefore tail (parseAny (fuel + 1) place level)
    (parseAny (otherFuel + 1) place otherLevel) tokens := by
  have alone : ∀ tokens, ReadsBefore tail
      (do
        let statement ← parseStatement fuel place level
        pure (statement, false))
      (do
        let statement ← parseStatement otherFuel place otherLevel
        pure (statement, false)) tokens :=
    fun tokens => .bind (nests.statement place bound tokens) fun statement rest => .pure _
  rw [parseAny, parseAny]
  apply ReadsBefore.peek? closes
  · exact alone []
  · intro functions found rest after read
    have failed := (NeedsToken.statement fuel place level).bind
      (fun statement => pure (statement, false)) functions
    cases failed.symm.trans read
  · intro token rest
    split
    next word found =>
      cases found
      split
      next =>
        apply ReadsBefore.skip
        · exact fun equal => Token.noConfusion equal
        · apply ReadsBefore.bind (nests.word place bound word rest)
          exact fun statement rest => .pure _
      next => exact alone _
    next =>
      apply ReadsBefore.bind (nests.block place bound _)
      exact fun statement rest => .pure _
    next => exact alone _

theorem declaration_step (constant : Bool) :
    ReadsBefore tail (parseDeclaration (fuel + 1) place level constant)
      (parseDeclaration (otherFuel + 1) place otherLevel constant) tokens := by
  rw [parseDeclaration, parseDeclaration]
  apply ReadsBefore.bind (.expectName closes)
  intro name rest
  apply ReadsBefore.bind (.accept closes (by decide) (by decide))
  intro given rest
  cases given with
  | true =>
    apply ReadsBefore.bind (nests.expr place bound rest)
    exact fun value rest => .pure _
  | false => exact .pure _

theorem carried_step : ReadsBefore tail (parseCarried (fuel + 1) place level)
    (parseCarried (otherFuel + 1) place otherLevel) tokens := by
  rw [parseCarried, parseCarried]
  apply ReadsBefore.peek? closes
  · exact .pure _
  · exact .pure _
  · intro token rest
    split
    next absent => cases absent
    next => exact .pure _
    next => exact .pure _
    next => exact nests.expr place bound _

theorem attempt_step : ReadsBefore tail (parseAttempt (fuel + 1) place level)
    (parseAttempt (otherFuel + 1) place otherLevel) tokens := by
  have deep := Nat.succ_le_succ bound
  rw [parseAttempt, parseAttempt]
  apply ReadsBefore.deeper bound
  apply ReadsBefore.bind (nests.block place deep tokens)
  intro body rest
  apply ReadsBefore.bind (.acceptWord closes "catch")
  intro caught rest
  apply ReadsBefore.ensure
  apply ReadsBefore.bind (.accept closes (by decide) (by decide))
  intro named rest
  cases named with
  | true =>
    apply ReadsBefore.bind (.expectName closes)
    intro name rest
    apply ReadsBefore.bind (.expect (by decide))
    intro _ rest
    apply ReadsBefore.bind (nests.block place deep rest)
    exact fun handler rest => .pure _
  | false =>
    apply ReadsBefore.bind (nests.block place deep rest)
    exact fun handler rest => .pure _

theorem word_step (word : String) :
    ReadsBefore tail (parseWord (fuel + 1) place level word)
      (parseWord (otherFuel + 1) place otherLevel word) tokens := by
  have deep := Nat.succ_le_succ bound
  rw [parseWord.eq_def, parseWord.eq_def]
  dsimp only
  split
  next => exact nests.declaration place bound false tokens
  next => exact nests.declaration place bound true tokens
  next => exact .bind (nests.carried place bound tokens) fun value rest => .pure _
  next => exact .bind (nests.carried place bound tokens) fun value rest => .pure _
  next => exact .ensure (.bind (nests.carried place bound tokens) fun value rest => .pure _)
  next => exact .ensure (.pure _)
  next => exact nests.attempt place bound tokens
  next => exact nests.choice place bound tokens
  next => exact nests.select place bound tokens
  next =>
    apply ReadsBefore.deeper bound
    apply ReadsBefore.bind (nests.expr place deep tokens)
    intro condition rest
    apply ReadsBefore.ensure
    exact .bind (nests.block place.inLoop deep rest) fun body rest => .pure _
  next =>
    apply ReadsBefore.deeper bound
    exact .bind (nests.block place.inLoop deep tokens) fun body rest => .pure _
  next =>
    apply ReadsBefore.deeper bound
    apply ReadsBefore.bind (nests.block place.inLoop deep tokens)
    intro body rest
    have ends : ∀ (wanted known : Bool) rest, ReadsBefore tail
        (do
          ensure known
          let condition ← parseExpr fuel place (level + 1)
          ensure (mayBeCondition condition)
          pure (Expr.loop true wanted condition body))
        (do
          ensure known
          let condition ← parseExpr otherFuel place (otherLevel + 1)
          ensure (mayBeCondition condition)
          pure (Expr.loop true wanted condition body)) rest :=
      fun wanted known rest =>
        .ensure (.bind (nests.expr place deep rest) fun condition rest => .ensure (.pure _))
    apply ReadsBefore.bind (.acceptWord closes "while")
    intro wanted rest
    cases wanted with
    | true => exact .bind (.pure true) (ends true)
    | false => exact .bind (.acceptWord closes "until") (ends false)
  next =>
    apply ReadsBefore.deeper bound
    apply ReadsBefore.bind (.itemNames closes)
    rintro ⟨item, counter⟩ rest
    apply ReadsBefore.bind (.acceptWord closes "in")
    intro known rest
    apply ReadsBefore.ensure
    apply ReadsBefore.bind (nests.expr place deep rest)
    intro source rest
    exact .bind (nests.block place.inLoop deep rest) fun body rest => .pure _
  next => exact .fail _

theorem statement_step : ReadsBefore tail (parseStatement (fuel + 1) place level)
    (parseStatement (otherFuel + 1) place otherLevel) tokens := by
  rw [parseStatement, parseStatement]
  apply ReadsBefore.bind (nests.expr place bound tokens)
  intro target rest
  apply ReadsBefore.peek? closes
  · exact .pure target
  · exact .pure target
  · intro token rest
    cases token with
    | symbol sign =>
      dsimp only
      split
      next known =>
        apply ReadsBefore.skip
        · rintro ⟨⟩
          cases known
        · apply ReadsBefore.ensure
          apply ReadsBefore.bind (nests.expr place bound rest)
          exact fun value rest => .pure _
      next => exact .pure target
    | _ => exact .pure target

theorem choice_step : ReadsBefore tail (parseChoice (fuel + 1) place level)
    (parseChoice (otherFuel + 1) place otherLevel) tokens := by
  have deep := Nat.succ_le_succ bound
  rw [parseChoice, parseChoice]
  apply ReadsBefore.deeper bound
  apply ReadsBefore.bind (nests.expr place deep tokens)
  intro condition rest
  apply ReadsBefore.ensure
  apply ReadsBefore.bind (nests.block place deep rest)
  intro positive rest
  apply ReadsBefore.bind (.acceptWord closes "else")
  intro otherwise rest
  cases otherwise with
  | true =>
    apply ReadsBefore.bind (.acceptWord closes "if")
    intro another rest
    cases another with
    | true =>
      apply ReadsBefore.bind (nests.choice place deep rest)
      exact fun negative rest => .pure _
    | false =>
      apply ReadsBefore.bind (nests.block place deep rest)
      exact fun negative rest => .pure _
  | false => exact .pure _

theorem caseValues_step : ReadsBefore tail (parseCaseValues (fuel + 1) place level)
    (parseCaseValues (otherFuel + 1) place otherLevel) tokens := by
  rw [parseCaseValues, parseCaseValues]
  apply ReadsBefore.bind (nests.unary place bound tokens)
  intro operand rest
  apply ReadsBefore.bind (nests.operators place bound 31 operand rest)
  intro whole rest
  cases literalValue? whole with
  | none => exact .fail _
  | some value =>
    apply ReadsBefore.bind (.accept closes (by decide) (by decide))
    intro more rest
    cases more with
    | true =>
      apply ReadsBefore.bind (nests.caseValues place bound rest)
      exact fun values rest => .pure _
    | false => exact .pure _

theorem caseOutcome_step (values : List Value) (guard : Expr) :
    ReadsBefore tail (parseCaseOutcome fuel place level values guard)
      (parseCaseOutcome otherFuel place otherLevel values guard) tokens := by
  unfold parseCaseOutcome
  apply ReadsBefore.bind (.expect (by decide))
  intro _ rest
  apply ReadsBefore.bind (nests.outcome place (Nat.succ_le_succ bound) rest)
  rintro ⟨outcome, closed⟩ rest
  apply ReadsBefore.bind (.accept closes (by decide) (by decide))
  intro more rest
  dsimp only
  split
  next =>
    apply ReadsBefore.bind (nests.cases place bound rest)
    exact fun found rest => .pure _
  next =>
    apply ReadsBefore.bind (.expect (by decide))
    exact fun _ rest => .bind (.pure _) fun _ rest => .pure _

theorem cases_step : ReadsBefore tail (parseCases (fuel + 1) place level)
    (parseCases (otherFuel + 1) place otherLevel) tokens := by
  rw [parseCases, parseCases]
  apply ReadsBefore.acceptBrace
  · exact .deeper (.accept ((NeedsToken.caseValues fuel place (level + 1)).bind _))
  · exact fun rest => .pure _
  · rw [if_neg Bool.false_ne_true, if_neg Bool.false_ne_true]
    apply ReadsBefore.deeper bound
    apply ReadsBefore.bind (.accept closes (by decide) (by decide))
    intro last rest
    cases last with
    | true =>
      apply ReadsBefore.bind (.expect (by decide))
      intro _ rest
      apply ReadsBefore.bind (nests.outcome place (Nat.succ_le_succ bound) rest)
      rintro ⟨outcome, closed⟩ rest
      apply ReadsBefore.bind (.accept closes (by decide) (by decide))
      intro _ rest
      exact .bind (.expect (by decide)) fun _ rest => .pure _
    | false =>
      rw [if_neg Bool.false_ne_true, if_neg Bool.false_ne_true]
      apply ReadsBefore.bind (nests.caseValues place (Nat.succ_le_succ bound) rest)
      intro values rest
      apply ReadsBefore.bind (.acceptWord closes "if")
      intro guarded rest
      cases guarded with
      | true =>
        exact .bind (nests.expr place (Nat.succ_le_succ bound) rest) fun guard rest =>
          nests.caseOutcome_step closes place bound rest values guard
      | false =>
        exact .bind (.pure _) fun guard rest =>
          nests.caseOutcome_step closes place bound rest values guard

omit bound in
theorem parameters_step :
    ReadsBefore tail (parseParameters (fuel + 1)) (parseParameters (otherFuel + 1)) tokens := by
  rw [parseParameters, parseParameters]
  apply ReadsBefore.bind (.accept closes (by decide) (by decide))
  intro finished rest
  cases finished with
  | true => exact .pure []
  | false =>
    apply ReadsBefore.bind (.expectName closes)
    intro name rest
    apply ReadsBefore.bind (.accept closes (by decide) (by decide))
    intro more rest
    cases more with
    | true =>
      apply ReadsBefore.bind (nests.parameters rest)
      exact fun names rest => .ensure (.pure _)
    | false => exact .bind (.expect (by decide)) fun _ rest => .pure _

omit closes in
theorem function_step (parameters : List String) :
    ReadsBefore tail (parseFunction (fuel + 1) place level parameters)
      (parseFunction (otherFuel + 1) place otherLevel parameters) tokens := by
  rw [parseFunction, parseFunction]
  apply ReadsBefore.ensure
  apply ReadsBefore.deeper bound
  apply ReadsBefore.bind (nests.any .function (Nat.succ_le_succ bound) tokens)
  rintro ⟨body, closed⟩ rest
  exact .bind (.addFunction _) fun index rest => .pure _

theorem segments_step : ReadsBefore tail (parseSegments (fuel + 1) place level)
    (parseSegments (otherFuel + 1) place otherLevel) tokens := by
  rw [parseSegments, parseSegments]
  apply ReadsBefore.bind (nests.block place bound tokens)
  intro hole rest
  apply ReadsBefore.peek? closes
  · exact .fail _
  · exact .fail _
  · intro token rest
    cases token with
    | part content more =>
      apply ReadsBefore.skip
      · exact fun equal => Token.noConfusion equal
      · cases more with
        | true =>
          apply ReadsBefore.bind (nests.segments place bound rest)
          exact fun segments rest => .pure _
        | false => exact .bind (.pure _) fun segments rest => .pure _
    | _ => exact .fail _

theorem primary_step : ReadsBefore tail (parsePrimary (fuel + 1) place level)
    (parsePrimary (otherFuel + 1) place otherLevel) tokens := by
  have deep := Nat.succ_le_succ bound
  rw [parsePrimary, parsePrimary]
  apply ReadsBefore.peek? closes
  · exact .fail _
  · exact .fail _
  · intro token rest
    split
    next absent => cases absent
    next => exact .ensure (nests.block place bound _)
    next found =>
    cases found
    by_cases stop : token = .symbol "."
    · subst stop
      intro functions found left after read
      cases read
    apply ReadsBefore.skip stop
    split
    next => exact .pure _
    next => exact .pure _
    next => exact .pure _
    next => exact .pure _
    next content more _ =>
      cases more with
      | false => exact .pure _
      | true =>
        apply ReadsBefore.deeper bound
        apply ReadsBefore.bind (nests.segments place deep rest)
        exact fun segments rest => .pure _
    next =>
      apply ReadsBefore.bind (.accept closes (by decide) (by decide))
      intro called rest
      cases called with
      | true =>
        apply ReadsBefore.bind (nests.arguments place bound rest)
        exact fun arguments rest => .pure _
      | false => exact .pure _
    next =>
      split
      next => exact .ensure (.pure _)
      next =>
        apply ReadsBefore.ensure
        apply ReadsBefore.bind (.expect (by decide))
        intro _ rest
        apply ReadsBefore.bind (nests.arguments place bound rest)
        exact fun arguments rest => .pure _
    next => exact .pure _
    next => exact .pure _
    next word _ _ _ => exact .ensure (nests.word place bound word rest)
    next =>
      apply ReadsBefore.bind (.accept closes (by decide) (by decide))
      intro empty rest
      cases empty with
      | true => exact .pure _
      | false =>
        apply ReadsBefore.deeper bound
        apply ReadsBefore.bind (nests.expr place deep rest)
        intro whole rest
        exact .bind (.expect (by decide)) fun _ rest => .pure _
    next =>
      apply ReadsBefore.deeper bound
      apply ReadsBefore.bind (nests.items place deep rest)
      exact fun items rest => .pure _
    next =>
      apply ReadsBefore.deeper bound
      apply ReadsBefore.bind (nests.entries place deep rest)
      exact fun entries rest => .pure _
    next =>
      apply ReadsBefore.bind (nests.parameters rest)
      exact fun parameters rest => nests.function place bound parameters rest
    next => exact nests.function place bound [] rest
    next => exact .fail _

end Nests

/-- Parsers read from tokens before a tail what they read from them alone. -/
theorem nests {tail : List Token} (closes : ClosesHole tail) {fuel otherFuel : Nat}
    (enough : fuel ≤ otherFuel) : Nests tail fuel otherFuel := by
  induction fuel generalizing otherFuel with
  | zero =>
    -- Without fuel nothing is read.
    constructor
    all_goals
      intros
      simp only [parseExpr, parseOperators, parseUnary, parseChain, parseSteps, parseMember,
        parseArguments, parseItems, parseEntries, parseBlock, parseSequence, parseAny, parseWord,
        parseDeclaration, parseCarried, parseAttempt, parseStatement, parseChoice, parseCaseValues,
        parseSelect, parseOutcome, parseCases, parseParameters, parseFunction, parseSegments,
        parsePrimary]
      exact .fail _
  | succ fuel ih =>
    obtain ⟨otherFuel, rfl⟩ : ∃ left, otherFuel = left + 1 := ⟨otherFuel - 1, by omega⟩
    have shorter := ih (Nat.le_of_succ_le_succ enough)
    exact {
      expr := fun place _ _ bound tokens => shorter.expr_step place bound tokens
      operators := fun place _ _ bound strength left tokens =>
        shorter.operators_step closes place bound tokens strength left
      unary := fun place _ _ bound tokens => shorter.unary_step closes place bound tokens
      chain := fun place _ _ bound tokens => shorter.chain_step place bound tokens
      steps := fun place _ _ bound base atBase tokens =>
        shorter.steps_step closes place bound tokens base atBase
      member := fun place _ _ bound optional tokens =>
        shorter.member_step closes place bound tokens optional
      arguments := fun place _ _ bound tokens => shorter.arguments_step closes place bound tokens
      items := fun place _ _ bound tokens => shorter.items_step closes place bound tokens
      entries := fun place _ _ bound tokens => shorter.entries_step closes place bound tokens
      block := fun place _ _ bound tokens => shorter.block_step place bound tokens
      sequence := fun place _ _ bound tokens => shorter.sequence_step closes place bound tokens
      any := fun place _ _ bound tokens => shorter.any_step closes place bound tokens
      word := fun place _ _ bound word tokens => shorter.word_step closes place bound tokens word
      declaration := fun place _ _ bound constant tokens =>
        shorter.declaration_step closes place bound tokens constant
      carried := fun place _ _ bound tokens => shorter.carried_step closes place bound tokens
      attempt := fun place _ _ bound tokens => shorter.attempt_step closes place bound tokens
      statement := fun place _ _ bound tokens => shorter.statement_step closes place bound tokens
      choice := fun place _ _ bound tokens => shorter.choice_step closes place bound tokens
      caseValues := fun place _ _ bound tokens => shorter.caseValues_step closes place bound tokens
      select := fun place _ _ bound tokens => shorter.select_step place bound tokens
      outcome := fun place _ _ bound tokens => shorter.outcome_step place bound tokens
      cases := fun place _ _ bound tokens => shorter.cases_step closes place bound tokens
      parameters := fun tokens => shorter.parameters_step closes tokens
      function := fun place _ _ bound parameters tokens =>
        shorter.function_step place bound tokens parameters
      segments := fun place _ _ bound tokens => shorter.segments_step closes place bound tokens
      primary := fun place _ _ bound tokens => shorter.primary_step closes place bound tokens }

end Recast.Script
