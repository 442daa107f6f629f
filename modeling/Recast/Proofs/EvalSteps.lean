import Recast.Proofs.LibraryActions

set_option autoImplicit false

/-!
# Properties that evaluation has of its steps

Evaluation touches the bindings in a few ways only. A property of computations that each of them
has, and that one computation after another has if both do, is one of every evaluation that does
nothing else.
-/

namespace Recast.Script

/-! ## Parts of expressions -/

mutual

/-- An expression and the expressions in it. What stands in a function is no part of the expression
that the function is written in. -/
def Expr.parts : Expr → List Expr
  | .constant value => [.constant value]
  | .joined segments => .joined segments :: partsOf segments
  | .variable name => [.variable name]
  | .self => [.self]
  | .array items => .array items :: partsOf items
  | .map entries => .map entries :: partsOfEntries entries
  | .both left right => .both left right :: (left.parts ++ right.parts)
  | .either left right => .either left right :: (left.parts ++ right.parts)
  | .fallback left right => .fallback left right :: (left.parts ++ right.parts)
  | .operator sign left right => .operator sign left right :: (left.parts ++ right.parts)
  | .call name arguments => .call name arguments :: partsOf arguments
  | .chain base steps => .chain base steps :: (base.parts ++ partsOfSteps steps)
  | .choice condition positive negative =>
    .choice condition positive negative ::
      (condition.parts ++ (positive.parts ++ negative.parts))
  | .select subject cases otherwise =>
    .select subject cases otherwise ::
      (subject.parts ++ (partsOfCases cases ++ otherwise.parts))
  | .assign sign target value => .assign sign target value :: (value.parts ++ target.parts)
  | .function index captured => [.function index captured]
  | .block statements => .block statements :: partsOf statements
  | .declare name constant value => .declare name constant value :: value.parts
  | .loop bodyFirst wanted condition body =>
    .loop bodyFirst wanted condition body :: (condition.parts ++ body.parts)
  | .each item counter source body => .each item counter source body :: (source.parts ++ body.parts)
  | .jump jump value => .jump jump value :: value.parts
  | .attempt body name handler => .attempt body name handler :: (body.parts ++ handler.parts)

def partsOf : List Expr → List Expr
  | [] => []
  | item :: rest => item.parts ++ partsOf rest

def partsOfEntries : List (String × Expr) → List Expr
  | [] => []
  | (_, item) :: rest => item.parts ++ partsOfEntries rest

def partsOfCases : List (List Value × Expr × Expr) → List Expr
  | [] => []
  | (_, guard, item) :: rest => guard.parts ++ (item.parts ++ partsOfCases rest)

def partsOfSteps : List Step → List Expr
  | [] => []
  | step :: rest => step.parts ++ partsOfSteps rest

def Step.parts : Step → List Expr
  | .property _ _ => []
  | .index _ position => position.parts
  | .method _ _ arguments => partsOf arguments

end

def Expr.isEvalCall : Expr → Bool
  | .call name _ => name == "eval"
  | _ => false

/-- The expression itself binds a name. -/
def Expr.bindsHere : Expr → Bool
  | .declare _ _ _ => true
  | .each _ _ _ _ => true
  | .attempt _ name _ => name.isSome
  | _ => false

/-- The variables that a function captures where it is written. -/
def Expr.capturedHere : Expr → List String
  | .function _ captured => captured
  | _ => []

/-- The variable that an expression asks about whether it is shared. -/
def Expr.askedHere : Expr → List String
  | .call "is_shared" (.variable name :: _) => [name]
  | .chain (.variable name) [.method _ "is_shared" []] => [name]
  | _ => []

/-- The expression asks of something else than a variable whether it is shared. -/
def Expr.asksHere : Expr → Bool
  | .call "is_shared" (.variable _ :: _) => false
  | .call "is_shared" _ => true
  | _ => false

def Expr.captures (expr : Expr) : List String :=
  expr.parts.flatMap Expr.capturedHere

def Expr.asked (expr : Expr) : List String :=
  expr.parts.flatMap Expr.askedHere

/-! ## Computations -/

theorem bind_eq {α β : Type} (first : Eval α) (next : α → Eval β) (before : Memory) :
    (first >>= next) before =
      match first before with
      | (.ok value, after) => next value after
      | (.error stop, after) => (.error stop, after) := by
  simp only [bind, ExceptT.bind, ExceptT.mk, StateT.bind, ExceptT.bindCont]
  obtain ⟨outcome, after⟩ := first before
  cases outcome <;> rfl

/-! ## Laws -/

/-- What an evaluation may do: store a value in a binding, add one, evaluate a text, ask whether
the last value is shared, share a variable, and ask whether a variable is shared. -/
structure Permits where
  stores : Prop
  adds : Prop
  evaluates : Prop
  asks : Prop
  shares : String → Prop
  inquires : String → Prop

def Permits.everything : Permits :=
  ⟨True, True, True, True, fun _ => True, fun _ => True⟩

/-- Neither a call nor an assignment changes what a name is bound to. -/
def Held.IsFixed (held : Held) : Prop :=
  held.constant = true ∧ held.detached = true

/-- A property of computations that every step of an evaluation has which does what is permitted.
Only a binding that is not fixed is stored to. -/
structure StepLaws (permits : Permits) (acts : ∀ {α : Type}, Action α → Prop)
    (holds : ∀ {α : Type}, Eval α → Prop) : Prop where
  actions : ActionLaws acts
  perform : ∀ {α : Type} {action : Action α}, acts action → holds (perform action)
  bind : ∀ {α β : Type} {first : Eval α} {next : α → Eval β}, holds first →
    (∀ value, holds (next value)) → holds (first >>= next)
  lookUp : ∀ {α : Type} (name : String) {next : Held → Eval α},
    (∀ held, held.IsFixed ∨ permits.stores → holds (next held)) → holds (lookUp name >>= next)
  inquire : ∀ {α : Type} (name : String) {next : Held → Bool → Eval α}, permits.inquires name →
    (∀ held flag, held.IsFixed ∨ permits.stores → holds (next held flag)) →
    holds (Script.lookUp name >>= fun held => Script.wasShared >>= next held)
  wasShared : permits.asks → holds wasShared
  isBound : ∀ name, holds (isBound name)
  unshared : ∀ value, holds (unshared value)
  store : permits.stores → ∀ name value, holds (store name value)
  share : ∀ name, permits.shares name → holds (share name)
  add : permits.adds → ∀ name constant value, holds (add name constant value)
  inBlock : ∀ {α : Type} {run : Eval α}, holds run → holds (inBlock run)
  examined : ∀ {α : Type} {run : Eval α}, holds run → holds (examined run)

/-- All that the expression itself does is permitted. -/
structure Expr.Keeps (permits : Permits) (expr : Expr) : Prop where
  evaluates : expr.isEvalCall = true → permits.evaluates
  adds : expr.bindsHere = true → permits.adds
  asks : expr.asksHere = true → permits.asks
  shares : ∀ name ∈ expr.capturedHere, permits.shares name
  inquires : ∀ name ∈ expr.askedHere, permits.inquires name

namespace StepLaws

variable {permits : Permits} {acts : ∀ {α : Type}, Action α → Prop}
  {holds : ∀ {α : Type}, Eval α → Prop} (laws : StepLaws permits acts holds)

include laws

theorem settle {α : Type} (outcome : Except Stop α) : holds (Script.settle outcome) :=
  laws.perform (laws.actions.settled outcome)

theorem pure {α : Type} (value : α) : holds (Pure.pure value : Eval α) :=
  laws.settle (.ok value)

theorem lift {α : Type} (outcome : Except Fault α) : holds (liftExcept outcome) :=
  laws.perform (laws.actions.failing outcome)

theorem counting {α : Type} {run : Eval α} (runs : holds run) : holds (Script.counting run) :=
  laws.bind (laws.perform laws.actions.operate) fun _ =>
    laws.bind (laws.unshared .unit) fun _ => runs

theorem asFlag (value : Value) : holds (Script.asFlag value) := by
  unfold Script.asFlag
  split
  next => exact laws.pure _
  next => exact laws.lift _

/-- A value is computed and is shared with nothing. -/
theorem unsharing {run : Eval Value} (runs : holds run) :
    holds (do
      let value ← run
      Script.unshared value) :=
  laws.bind runs laws.unshared

theorem capture : ∀ names : List String, (∀ name ∈ names, permits.shares name) →
    holds (Script.capture names)
  | [], _ => laws.pure []
  | name :: rest, shares => by
    rw [Script.capture]
    apply laws.lookUp name
    intro held _
    apply laws.bind (laws.share name (shares name List.mem_cons_self))
    intro _
    apply laws.bind (capture rest fun other member => shares other (List.mem_cons_of_mem _ member))
    intro values
    exact laws.pure _

theorem leave (name : String) {fixed : Bool} (writable : fixed = true ∨ permits.stores)
    (after : Option Value) : holds (Script.leave name fixed after) := by
  unfold Script.leave
  split
  next =>
    split
    next => exact laws.pure _
    next free => exact laws.store (writable.resolve_left free) name _
  next => exact laws.pure _

/-! ## Loops -/

theorem turn {body : Eval Value} (runs : holds body) : holds (Script.turn body) := by
  apply laws.bind (laws.examined (laws.inBlock runs))
  intro outcome
  split
  next => exact laws.pure _
  next => exact laws.pure _
  next => exact laws.pure _
  next => exact laws.settle _

theorem repeatTurns {check : Eval Bool} {body : Eval Value} (checks : holds check)
    (runs : holds body) (fuel : Nat) (unchecked : Bool) :
    holds (Script.repeatTurns check body fuel unchecked) := by
  induction fuel generalizing unchecked with
  | zero => exact laws.lift _
  | succ fuel ih =>
    rw [Script.repeatTurns]
    apply laws.counting
    split
    case' isTrue => apply laws.bind (laws.pure true)
    case' isFalse => apply laws.bind checks
    all_goals
      intro goesOn
      dsimp only
      split
      next =>
        apply laws.bind (laws.turn runs)
        intro ended
        split
        next => exact laws.pure _
        next => exact ih false
      next => exact laws.pure _

theorem eachTurn (source : Value) {body : Value → Nat → Eval Value}
    (runs : ∀ item number, holds (body item number)) (fuel number : Nat) :
    holds (Script.eachTurn source body fuel number) := by
  induction fuel generalizing number with
  | zero => exact laws.lift _
  | succ fuel ih =>
    rw [Script.eachTurn]
    split
    next => exact laws.pure _
    next item _ =>
      apply laws.counting
      apply laws.bind (laws.turn (runs item number))
      intro ended
      split
      next => exact laws.pure _
      next => exact ih (number + 1)

/-! ## Expressions -/

variable {machine : Machine} (called : machine.calls.Satisfy acts)
  (texts : permits.evaluates → ∀ source, holds (machine.evaluateText source))

include called texts

theorem callFunction {name : String} (evaluates : name = "eval" → permits.evaluates)
    {arguments : List Value}
    (asks : name = "is_shared" → arguments.length = 1 → permits.asks) :
    holds (Script.callFunction machine name arguments) := by
  unfold Script.callFunction
  split
  next => exact laws.pure _
  next => exact laws.bind (laws.wasShared (asks rfl rfl)) fun flag => laws.pure _
  next => exact laws.pure _
  next target => exact laws.bind (laws.isBound target) fun flag => laws.pure _
  next source => exact laws.bind (texts (evaluates rfl) source) fun value => laws.pure _
  next => exact laws.lift _
  next => exact laws.perform (laws.actions.callNamed called _ _)

/-- A call on a variable may leave a value in it. -/
theorem callVariable {name : String} (evaluates : name = "eval" → permits.evaluates)
    {target : String} (inquires : name = "is_shared" → permits.inquires target)
    (values : List Value) :
    holds (do
      let held ← Script.lookUp target
      let (value, after) ← Script.callFunction machine name (held.value :: values)
      Script.leave target held.detached after
      Script.unshared value) := by
  by_cases asks : name = "is_shared" ∧ values = []
  · obtain ⟨rfl, rfl⟩ := asks
    have inquired : ∀ held : Held, (do
        let (value, after) ← Script.callFunction machine "is_shared" [held.value]
        Script.leave target held.detached after
        Script.unshared value) =
          (Script.wasShared >>= fun flag => Script.unshared (.bool flag)) :=
      fun held => rfl
    simp only [inquired]
    exact laws.inquire target (inquires rfl) fun held flag _ => laws.unshared _
  · apply laws.lookUp target
    intro held writable
    have asksNot (same : name = "is_shared") (single : (held.value :: values).length = 1) :
        permits.asks :=
      absurd ⟨same, List.length_eq_zero_iff.mp (Nat.succ.inj single)⟩ asks
    have function := laws.callFunction called texts evaluates asksNot
    apply laws.bind function
    rintro ⟨value, after⟩
    exact laws.bind (laws.leave target (writable.imp_left And.right) after) fun _ =>
      laws.unshared _

-- Some of these use what is said of calls and texts only through the others.
set_option linter.unusedSectionVars false in
mutual

theorem evalExpr (receiver : Value) : ∀ expr : Expr, (∀ part ∈ expr.parts, part.Keeps permits) →
    holds (Script.evalExpr machine receiver expr)
  | .constant value, _ => by
    rw [Script.evalExpr]
    exact laws.counting (laws.unshared value)
  | .joined segments, keeps => by
    rw [Expr.parts, List.forall_mem_cons] at keeps
    rw [Script.evalExpr]
    apply laws.counting
    apply laws.bind (evalAll receiver segments keeps.2)
    exact fun values => laws.unsharing (laws.lift _)
  | .variable name, _ => by
    rw [Script.evalExpr]
    exact laws.counting (laws.lookUp name fun held _ => laws.pure held.value)
  | .self, _ => by
    rw [Script.evalExpr]
    exact laws.counting (laws.unshared receiver)
  | .array items, keeps => by
    rw [Expr.parts, List.forall_mem_cons] at keeps
    rw [Script.evalExpr]
    apply laws.counting
    apply laws.bind (evalAll receiver items keeps.2)
    exact fun values => laws.unsharing (laws.lift _)
  | .map entries, keeps => by
    rw [Expr.parts, List.forall_mem_cons] at keeps
    rw [Script.evalExpr]
    apply laws.counting
    apply laws.bind (evalEntries receiver entries keeps.2)
    exact fun values => laws.unsharing (laws.lift _)
  | .both left right, keeps => by
    rw [Expr.parts, List.forall_mem_cons, List.forall_mem_append] at keeps
    rw [Script.evalExpr]
    apply laws.counting
    apply laws.bind (evalExpr receiver left keeps.2.1)
    intro value
    apply laws.bind (laws.asFlag value)
    intro flag
    split
    next =>
      apply laws.bind (evalExpr receiver right keeps.2.2)
      intro value
      exact laws.bind (laws.asFlag value) fun flag => laws.unshared _
    next => exact laws.unshared _
  | .either left right, keeps => by
    rw [Expr.parts, List.forall_mem_cons, List.forall_mem_append] at keeps
    rw [Script.evalExpr]
    apply laws.counting
    apply laws.bind (evalExpr receiver left keeps.2.1)
    intro value
    apply laws.bind (laws.asFlag value)
    intro flag
    split
    next => exact laws.unshared _
    next =>
      apply laws.bind (evalExpr receiver right keeps.2.2)
      intro value
      exact laws.bind (laws.asFlag value) fun flag => laws.unshared _
  | .fallback left right, keeps => by
    rw [Expr.parts, List.forall_mem_cons, List.forall_mem_append] at keeps
    rw [Script.evalExpr]
    apply laws.counting
    apply laws.bind (evalExpr receiver left keeps.2.1)
    intro value
    split
    next => exact evalExpr receiver right keeps.2.2
    next => exact laws.pure _
  | .operator sign left right, keeps => by
    rw [Expr.parts, List.forall_mem_cons, List.forall_mem_append] at keeps
    rw [Script.evalExpr]
    apply laws.counting
    apply laws.bind (evalExpr receiver left keeps.2.1)
    intro leftValue
    apply laws.bind (evalExpr receiver right keeps.2.2)
    intro rightValue
    apply laws.bind (laws.perform (laws.actions.charge machine.calls.answers))
    exact fun _ => laws.unsharing (laws.lift _)
  | .call name arguments, keeps => by
    rw [Expr.parts, List.forall_mem_cons] at keeps
    obtain ⟨here, keeps⟩ := keeps
    have evaluates : name = "eval" → permits.evaluates := by
      rintro rfl
      exact here.evaluates rfl
    unfold Script.evalExpr
    apply laws.counting
    split
    next target rest =>
      rw [partsOf, List.forall_mem_append] at keeps
      apply laws.bind (evalAll receiver rest keeps.2)
      have inquires : name = "is_shared" → permits.inquires target := by
        rintro rfl
        exact here.inquires target (List.mem_singleton_self target)
      exact fun values => laws.callVariable called texts evaluates inquires values
    next noVariable =>
      apply laws.bind (evalAll receiver arguments keeps)
      intro values
      have asks : name = "is_shared" → permits.asks := by
        rintro rfl
        apply here.asks
        unfold Expr.asksHere
        split
        next target rest same => exact absurd (Expr.call.inj same).2 (noVariable target rest)
        next => rfl
        next other => exact absurd rfl (other arguments)
      apply laws.bind (laws.callFunction called texts evaluates fun same _ => asks same)
      rintro ⟨value, after⟩
      exact laws.unshared value
  | .chain base steps, keeps => by
    rw [Expr.parts, List.forall_mem_cons, List.forall_mem_append] at keeps
    unfold Script.evalExpr
    apply laws.counting
    split
    next name optional =>
      have inquired := keeps.1.inquires name (List.mem_singleton_self name)
      exact laws.inquire name inquired fun held flag _ => laws.unshared (.bool flag)
    next name _ =>
      apply laws.bind (evalSteps receiver steps keeps.2.2)
      intro ready
      apply laws.lookUp name
      intro held writable
      apply laws.bind (laws.perform (laws.actions.walk called _ _ ready))
      rintro ⟨value, after⟩
      exact laws.bind (laws.leave name (writable.imp_left And.left) _) fun _ => laws.unshared value
    next =>
      apply laws.bind (evalSteps receiver steps keeps.2.2)
      intro ready
      apply laws.bind (evalExpr receiver base keeps.2.1)
      intro value
      apply laws.bind (laws.perform (laws.actions.walk called _ _ ready))
      rintro ⟨value, after⟩
      exact laws.unshared value
  | .choice condition positive negative, keeps => by
    rw [Expr.parts, List.forall_mem_cons, List.forall_mem_append, List.forall_mem_append] at keeps
    obtain ⟨_, conditionKeeps, positiveKeeps, negativeKeeps⟩ := keeps
    rw [Script.evalExpr]
    apply laws.counting
    apply laws.bind (evalExpr receiver condition conditionKeeps)
    intro value
    apply laws.bind (laws.asFlag value)
    intro flag
    apply laws.unsharing
    apply laws.inBlock
    cases flag with
    | true => exact evalExpr receiver positive positiveKeeps
    | false => exact evalExpr receiver negative negativeKeeps
  | .select subject cases otherwise, keeps => by
    rw [Expr.parts, List.forall_mem_cons, List.forall_mem_append, List.forall_mem_append] at keeps
    obtain ⟨_, subjectKeeps, casesKeep, otherwiseKeeps⟩ := keeps
    rw [Script.evalExpr]
    apply laws.counting
    apply laws.bind (evalExpr receiver subject subjectKeeps)
    intro value
    apply laws.bind (evalCases receiver value cases casesKeep)
    intro chosen
    cases chosen with
    | some outcome => exact laws.pure outcome
    | none => exact evalExpr receiver otherwise otherwiseKeeps
  | .assign sign target value, keeps => by
    rw [Expr.parts, List.forall_mem_cons, List.forall_mem_append] at keeps
    rw [Script.evalExpr]
    apply laws.counting
    apply laws.bind (evalExpr receiver value keeps.2.1)
    intro value
    exact evalAssign receiver sign value target keeps.2.2
  | .function index captured, keeps => by
    rw [Expr.parts, List.forall_mem_singleton] at keeps
    rw [Script.evalExpr]
    apply laws.counting
    apply laws.bind (laws.capture captured keeps.shares)
    exact fun values => laws.unshared _
  | .block statements, keeps => by
    rw [Expr.parts, List.forall_mem_cons] at keeps
    rw [Script.evalExpr]
    exact laws.counting
      (laws.unsharing (laws.inBlock (evalSequence receiver .unit statements keeps.2)))
  | .declare name constant value, keeps => by
    rw [Expr.parts, List.forall_mem_cons] at keeps
    rw [Script.evalExpr]
    apply laws.counting
    apply laws.bind (evalExpr receiver value keeps.2)
    intro value
    exact laws.bind (laws.add (keeps.1.adds rfl) name constant value) fun _ => laws.unshared _
  | .loop bodyFirst wanted condition body, keeps => by
    rw [Expr.parts, List.forall_mem_cons, List.forall_mem_append] at keeps
    rw [Script.evalExpr]
    apply laws.counting
    apply laws.unsharing
    apply laws.repeatTurns
    · apply laws.bind (evalExpr receiver condition keeps.2.1)
      exact fun value => laws.bind (laws.asFlag value) fun flag => laws.pure _
    · exact evalExpr receiver body keeps.2.2
  | .each item counter source body, keeps => by
    rw [Expr.parts, List.forall_mem_cons, List.forall_mem_append] at keeps
    rw [Script.evalExpr]
    apply laws.counting
    apply laws.bind (evalExpr receiver source keeps.2.1)
    intro source
    split
    next =>
      apply laws.unsharing
      apply laws.eachTurn
      intro value number
      apply laws.bind (laws.add (keeps.1.adds rfl) item false value)
      intro _
      have runs := evalExpr receiver body keeps.2.2
      cases counter with
      | some counter =>
        exact laws.bind (laws.add (keeps.1.adds rfl) counter false _) fun _ => runs
      | none => exact runs
    next => exact laws.lift _
  | .jump jump value, keeps => by
    rw [Expr.parts, List.forall_mem_cons] at keeps
    rw [Script.evalExpr]
    exact laws.counting
      (laws.bind (evalExpr receiver value keeps.2) fun value => laws.settle _)
  | .attempt body name handler, keeps => by
    rw [Expr.parts, List.forall_mem_cons, List.forall_mem_append] at keeps
    have runs := evalExpr receiver handler keeps.2.2
    rw [Script.evalExpr]
    apply laws.counting
    apply laws.bind (laws.examined (laws.inBlock (evalExpr receiver body keeps.2.1)))
    intro outcome
    split
    next value => exact laws.unshared value
    next stop =>
      apply laws.bind (laws.perform (laws.actions.caughtValue? _ stop))
      intro caught
      split
      next => exact laws.settle _
      next caught =>
        refine laws.bind (laws.examined (laws.inBlock ?_)) ?_
        · cases name with
          | some name =>
            exact laws.bind (laws.add (keeps.1.adds rfl) name false caught) fun _ => runs
          | none => exact runs
        · intro handled
          split
          next => exact laws.unshared _
          next => exact laws.settle _
          next => exact laws.settle _

theorem evalAll (receiver : Value) : ∀ items : List Expr,
    (∀ part ∈ partsOf items, part.Keeps permits) → holds (Script.evalAll machine receiver items)
  | [], _ => by
    rw [Script.evalAll]
    exact laws.pure []
  | item :: rest, keeps => by
    rw [partsOf, List.forall_mem_append] at keeps
    rw [Script.evalAll]
    apply laws.bind (evalExpr receiver item keeps.1)
    intro value
    exact laws.bind (evalAll receiver rest keeps.2) fun values => laws.pure _

theorem evalSequence (receiver value : Value) : ∀ statements : List Expr,
    (∀ part ∈ partsOf statements, part.Keeps permits) →
      holds (Script.evalSequence machine receiver value statements)
  | [], _ => by
    rw [Script.evalSequence]
    exact laws.unshared value
  | statement :: rest, keeps => by
    rw [partsOf, List.forall_mem_append] at keeps
    rw [Script.evalSequence]
    apply laws.bind (laws.counting (evalExpr receiver statement keeps.1))
    exact fun value => evalSequence receiver value rest keeps.2

theorem evalEntries (receiver : Value) : ∀ entries : List (String × Expr),
    (∀ part ∈ partsOfEntries entries, part.Keeps permits) →
      holds (Script.evalEntries machine receiver entries)
  | [], _ => by
    rw [Script.evalEntries]
    exact laws.pure []
  | (key, item) :: rest, keeps => by
    rw [partsOfEntries, List.forall_mem_append] at keeps
    rw [Script.evalEntries]
    apply laws.bind (evalExpr receiver item keeps.1)
    intro value
    exact laws.bind (evalEntries receiver rest keeps.2) fun values => laws.pure _

theorem evalCases (receiver subject : Value) :
    ∀ cases : List (List Value × Expr × Expr),
      (∀ part ∈ partsOfCases cases, part.Keeps permits) →
        holds (Script.evalCases machine receiver subject cases)
  | [], _ => by
    rw [Script.evalCases]
    exact laws.pure none
  | (values, guard, outcome) :: rest, keeps => by
    rw [partsOfCases, List.forall_mem_append, List.forall_mem_append] at keeps
    obtain ⟨guardKeeps, outcomeKeeps, restKeeps⟩ := keeps
    have others := evalCases receiver subject rest restKeeps
    rw [Script.evalCases]
    split
    next =>
      apply laws.bind (evalExpr receiver guard guardKeeps)
      intro value
      apply laws.bind (laws.asFlag value)
      intro flag
      split
      next =>
        apply laws.bind (evalExpr receiver outcome outcomeKeeps)
        exact fun value => laws.pure _
      next => exact others
    next => exact others

theorem evalSteps (receiver : Value) : ∀ steps : List Step,
    (∀ part ∈ partsOfSteps steps, part.Keeps permits) →
      holds (Script.evalSteps machine receiver steps)
  | [], _ => by
    rw [Script.evalSteps]
    exact laws.pure []
  | step :: rest, keeps => by
    rw [partsOfSteps, List.forall_mem_append] at keeps
    rw [Script.evalSteps]
    apply laws.bind (evalStep receiver step keeps.1)
    intro ready
    exact laws.bind (evalSteps receiver rest keeps.2) fun others => laws.pure _

theorem evalStep (receiver : Value) : ∀ step : Step, (∀ part ∈ step.parts, part.Keeps permits) →
    holds (Script.evalStep machine receiver step)
  | .property optional name, _ => by
    rw [Script.evalStep]
    exact laws.pure _
  | .index optional position, keeps => by
    rw [Script.evalStep]
    exact laws.bind (evalExpr receiver position keeps) fun value => laws.pure _
  | .method optional name arguments, keeps => by
    rw [Script.evalStep]
    exact laws.bind (evalAll receiver arguments keeps) fun values => laws.pure _

theorem evalAssign (receiver : Value) (sign : String) (value : Value) : ∀ target : Expr,
    (∀ part ∈ target.parts, part.Keeps permits) →
      holds (Script.evalAssign machine receiver sign value target) := by
  intro target keeps
  have replaces : ∀ (name : String) (assigned : Value → Except Fault Value), holds (do
      let held ← Script.lookUp name
      if held.constant then liftExcept (.error (.constantModified name))
      else do
        Script.perform machine.calls.answers.charge
        let whole ← liftExcept (assigned held.value)
        Script.store name whole
        Script.unshared .unit) := by
    intro name assigned
    apply laws.lookUp name
    intro held writable
    split
    next => exact laws.lift _
    next free =>
      have allowed := writable.resolve_left fun fixed => free fixed.1
      apply laws.bind (laws.perform (laws.actions.charge machine.calls.answers))
      intro _
      apply laws.bind (laws.lift _)
      intro whole
      exact laws.bind (laws.store allowed name whole) fun _ => laws.unshared _
  unfold Script.evalAssign
  split
  next name => exact replaces name fun before => assignAt machine.calls sign before value []
  next name steps =>
    rw [Expr.parts, List.forall_mem_cons, List.forall_mem_append] at keeps
    apply laws.bind (evalSteps receiver steps keeps.2.2)
    intro ready
    exact replaces name fun before => assignAt machine.calls sign before value ready
  next => exact laws.unshared _

end

end StepLaws

/-! ## Whole scripts -/

namespace StepLaws

variable {acts : ∀ {α : Type}, Action α → Prop} {holds : ∀ {α : Type}, Eval α → Prop}
  (laws : StepLaws Permits.everything acts holds)

theorem keeps_everything (expr : Expr) : expr.Keeps Permits.everything :=
  ⟨fun _ => trivial, fun _ => trivial, fun _ => trivial, fun _ _ => trivial, fun _ _ => trivial⟩

variable (calls : ∀ (bindings : Bindings) {run : Eval Value}, holds run →
  acts (within bindings run))

include laws calls

/-- Whatever functions and texts do has the property, however deep the calls are by then. -/
theorem machineAt (functions : List Function) (answers : Answers) (depth : Nat) :
    (Script.machineAt functions answers depth).calls.Satisfy acts ∧
      ∀ source, holds ((Script.machineAt functions answers depth).evaluateText source) := by
  induction depth with
  | zero => exact ⟨fun _ _ _ _ => laws.actions.failing _, fun _ => laws.lift _⟩
  | succ depth ih =>
    obtain ⟨called, texts⟩ := ih
    constructor
    · intro index captured receiver arguments
      unfold Script.machineAt
      dsimp only
      split
      next => exact laws.actions.failing _
      next function _ =>
        split
        next =>
          apply laws.actions.returning
          apply calls
          apply laws.counting
          exact laws.evalExpr called (fun _ => texts) receiver function.body
            fun part _ => keeps_everything part
        next => exact laws.actions.failing _
    · intro source
      unfold Script.machineAt
      dsimp only
      split
      next statements _ =>
        have sequence := laws.evalSequence called (fun _ => texts) .unit .unit statements
          fun part _ => keeps_everything part
        apply laws.bind (laws.examined sequence)
        intro outcome
        split
        next => exact laws.pure _
        next => exact laws.pure _
        next => exact laws.settle _
      next => exact laws.lift _

/-- Every expression has the property on the machine of a script, whatever it calls. -/
theorem anyExpr (functions : List Function) (answers : Answers) (depth : Nat) (receiver : Value)
    (expr : Expr) :
    holds (Script.evalExpr (Script.machineAt functions answers depth) receiver expr) :=
  have machine := laws.machineAt calls functions answers depth
  laws.evalExpr machine.1 (fun _ => machine.2) receiver expr fun part _ => keeps_everything part

/-- Every script has the property, whatever it evaluates. -/
theorem evaluate (script : Compiled) (answers : Answers) : holds (script.evaluate answers) :=
  laws.counting (laws.anyExpr calls script.functions answers maxCalls .unit script.body)

end StepLaws

/-! ## Two runs -/

/-- Bindings that are related, and effects that are the same. Whether the last value is shared may
differ, unless it can be asked for. -/
structure Memory.Related (related : Bindings → Bindings → Prop) (asks : Prop)
    (left right : Memory) : Prop where
  bindings : related left.bindings right.bindings
  shared : asks → left.shared = right.shared
  effects : left.effects = right.effects

/-- From related bindings the computation gives the same and leaves related bindings. -/
def Respects (related : Bindings → Bindings → Prop) (asks : Prop) {α : Type} (run : Eval α) :
    Prop :=
  ∀ left right, Memory.Related related asks left right →
    (run left).1 = (run right).1 ∧ Memory.Related related asks (run left).2 (run right).2

namespace Respects

variable {α β : Type} {related : Bindings → Bindings → Prop} {asks : Prop}

theorem bind {first : Eval α} {next : α → Eval β} (begins : Respects related asks first)
    (goes : ∀ value, Respects related asks (next value)) :
    Respects related asks (first >>= next) := by
  intro left right alike
  obtain ⟨same, after⟩ := begins left right alike
  rw [bind_eq, bind_eq]
  cases leftRun : first left with
  | mk outcome leftAfter =>
    cases rightRun : first right with
    | mk other rightAfter =>
      rw [leftRun, rightRun] at same after
      cases same
      cases outcome with
      | ok value => exact goes value leftAfter rightAfter after
      | error fault => exact ⟨rfl, after⟩

theorem perform (action : Action α) : Respects related asks (Script.perform action) := by
  rintro ⟨left, marked, effects⟩ ⟨right, otherMarked, _⟩ ⟨alike, shared, rfl⟩
  exact ⟨rfl, alike, shared, rfl⟩

theorem examined {run : Eval α} (respects : Respects related asks run) :
    Respects related asks (Script.examined run) := by
  intro left right alike
  obtain ⟨same, after⟩ := respects left right alike
  exact ⟨congrArg Except.ok same, after⟩

theorem unshared (value : Value) : Respects related asks (Script.unshared value) :=
  fun _ _ alike => ⟨rfl, alike.bindings, fun _ => rfl, alike.effects⟩

theorem change {update : Bindings → Bindings}
    (keeps : ∀ {left right}, related left right → related (update left) (update right)) :
    Respects related asks (Script.change update) :=
  fun _ _ alike => ⟨rfl, keeps alike.bindings, alike.shared, alike.effects⟩

/-- A block is respected if dropping what was added to related bindings keeps them related. -/
theorem inBlock {run : Eval α} (respects : Respects related asks run)
    (drops : ∀ {left right leftAfter rightAfter : Bindings}, related left right →
      related leftAfter rightAfter →
      related (leftAfter.drop (leftAfter.length - left.length))
        (rightAfter.drop (rightAfter.length - right.length))) :
    Respects related asks (Script.inBlock run) := by
  intro left right alike
  obtain ⟨same, after⟩ := respects left right alike
  exact ⟨same, drops alike.bindings after.bindings, after.shared, after.effects⟩

end Respects

end Recast.Script
