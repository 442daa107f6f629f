import Recast.Script.Eval

set_option autoImplicit false

/-!
# Properties that actions have of their steps

An action counts, asks and prints, and it looks at what another action comes to. A property that
each of these has, and that one action after another has if both do, is one of every action of the
library, if calls of functions have it.
-/

namespace Recast.Script

/-- A property of actions that every step of an action has. -/
structure ActionLaws (holds : ∀ {α : Type}, Action α → Prop) : Prop where
  settled : ∀ {α : Type} (outcome : Except Stop α), holds (settled outcome)
  operate : holds operate
  ask : holds ask
  printLine : ∀ line, holds (printLine line)
  attempted : ∀ {α : Type} {action : Action α}, holds action → holds (attempted action)
  bind : ∀ {α β : Type} {first : Action α} {next : α → Action β}, holds first →
    (∀ value, holds (next value)) → holds (first >>= next)

/-- Calls have the property, whatever function is called. -/
def Calls.Satisfy (calls : Calls) (holds : Action Value → Prop) : Prop :=
  ∀ function captured receiver values, holds (calls.call function captured receiver values)

/-- A routine has the property of actions, if it acts at all. -/
def Routine.Satisfies (holds : Action (Value × Value) → Prop) : Routine → Prop
  | .plain _ => True
  | .acting _ run => holds run

namespace ActionLaws

variable {holds : ∀ {α : Type}, Action α → Prop} (laws : ActionLaws holds)

include laws

section Steps

variable {α β : Type}

theorem pure (value : α) : holds (Pure.pure value : Action α) :=
  laws.settled (.ok value)

theorem throw (stop : Stop) : holds (MonadExcept.throw stop : Action α) :=
  laws.settled (.error stop)

theorem failing (outcome : Except Fault α) : holds (Script.failing outcome) :=
  laws.settled _

theorem map (change : α → β) {action : Action α} (acts : holds action) :
    holds (change <$> action) := by
  rw [map_eq_pure_bind]
  exact laws.bind acts fun value => laws.pure (change value)

theorem mapM {run : α → Action β} (acts : ∀ item, holds (run item)) (items : List α) :
    holds (items.mapM run) := by
  induction items with
  | nil => exact laws.pure []
  | cons item rest ih =>
    rw [List.mapM_cons]
    apply laws.bind (acts item)
    intro value
    exact laws.bind ih fun values => laws.pure (value :: values)

theorem foldlM {run : β → α → Action β} (acts : ∀ total item, holds (run total item))
    (start : β) (items : List α) : holds (items.foldlM run start) := by
  induction items generalizing start with
  | nil => exact laws.pure start
  | cons item rest ih =>
    rw [List.foldlM_cons]
    exact laws.bind (acts start item) ih

omit laws in
theorem ifElse {condition : Prop} [Decidable condition] {first other : Action α}
    (begins : holds first) (otherwise : holds other) :
    holds (if condition then first else other) := by
  split
  next => exact begins
  next => exact otherwise

theorem returning {action : Action Value} (acts : holds action) :
    holds (Script.returning action) := by
  unfold Script.returning
  apply laws.bind (laws.attempted acts)
  intro outcome
  split
  next => exact laws.pure _
  next => exact laws.pure _
  next => exact laws.throw _

end Steps

/-! ## The machine -/

variable (answers : Answers)

theorem now : holds answers.now :=
  laws.bind laws.ask fun _ => laws.pure _

theorem operateTimes (count : Nat) : holds (Script.operateTimes count) := by
  induction count with
  | zero => exact laws.pure ()
  | succ count ih => exact laws.bind laws.operate fun _ => ih

theorem charge : holds answers.charge :=
  laws.bind laws.ask fun _ => laws.operateTimes _

theorem callOther (name : String) (values : List Value) :
    holds (answers.callOther name values) := by
  unfold Answers.callOther
  apply laws.bind laws.ask
  intro number
  split
  next => exact laws.settled _
  next => exact laws.failing _

theorem caughtValue? (stop : Stop) : holds (Script.caughtValue? answers stop) := by
  unfold Script.caughtValue?
  split
  next => exact laws.pure _
  next =>
    split
    next =>
      exact laws.bind (laws.bind laws.ask fun _ => laws.pure _) fun value => laws.pure (some value)
    next => exact laws.pure _
  next => exact laws.pure _

theorem elapsed (instant : Int) : holds (Script.elapsed answers instant) := by
  unfold Script.elapsed
  apply laws.bind (laws.now answers)
  intro now
  split
  next => exact laws.failing _
  next => exact laws.pure _

theorem printValue (value : Value) : holds (Script.printValue value) :=
  laws.bind (laws.printLine _) fun _ => laws.pure _

theorem debugValue (value : Value) : holds (Script.debugValue answers value) :=
  laws.bind (laws.bind laws.ask fun _ => laws.pure _) fun _ =>
    laws.bind (laws.printLine _) fun _ => laws.pure _

/-! ## Routines -/

theorem run {routine : Routine} (acts : routine.Satisfies holds) : holds routine.run := by
  have bounds : ∀ result : Value × Value, holds (do
      let value ← Script.failing (boundedValue result.1)
      Pure.pure (value, result.2)) :=
    fun result => laws.bind (laws.failing _) fun _ => laws.pure _
  cases routine with
  | plain method => exact laws.bind (laws.failing method.run) bounds
  | acting mutates run => exact laws.bind acts bounds

theorem giving (receiver : Value) {action : Action Value} (acts : holds action) :
    ∀ routine ∈ Routine.giving receiver action, routine.Satisfies holds := by
  rintro _ ⟨⟩
  exact laws.bind acts fun value => laws.pure (value, receiver)

omit laws in
theorem plain (method : Option Method) :
    ∀ routine ∈ method.map Routine.plain, routine.Satisfies holds := by
  rintro routine found
  obtain ⟨method, _, rfl⟩ := Option.map_eq_some_iff.mp found
  trivial

omit laws in
theorem orElse {first other : Option Routine} (own : ∀ routine ∈ first, routine.Satisfies holds)
    (others : ∀ routine ∈ other, routine.Satisfies holds) :
    ∀ routine ∈ first.orElse fun _ => other, routine.Satisfies holds := by
  cases first with
  | none => exact others
  | some routine => exact own

section Calls

variable {calls : Calls} (called : calls.Satisfy holds) (function : Nat) (captured : List Value)

include called

omit laws in
theorem item (item : Value) (position : Nat) :
    holds (calls.item function captured item position) := by
  unfold Calls.item
  split
  next => exact called ..
  next => exact called ..
  next => exact called ..

theorem mapItems (items : List (Value × Nat)) :
    holds (calls.mapItems function captured items) := by
  apply laws.mapM
  exact fun entry => item called function captured entry.1 entry.2

theorem filterItems (items : List (Value × Nat)) :
    holds (calls.filterItems function captured items) := by
  induction items with
  | nil => exact laws.pure _
  | cons entry rest ih =>
    apply laws.bind (item called function captured entry.1 entry.2)
    intro flag
    exact laws.bind ih fun parts => laws.pure _

theorem findItem? (items : List (Value × Nat)) :
    holds (calls.findItem? function captured items) := by
  induction items with
  | nil => exact laws.pure _
  | cons entry rest ih =>
    apply laws.bind (item called function captured entry.1 entry.2)
    intro flag
    split
    next => exact laws.pure _
    next => exact ih

theorem holdForAll (items : List (Value × Nat)) :
    holds (calls.holdForAll function captured items) := by
  induction items with
  | nil => exact laws.pure _
  | cons entry rest ih =>
    apply laws.bind (item called function captured entry.1 entry.2)
    intro flag
    split
    next => exact ih
    next => exact laws.pure _

theorem findOutcome (items : List (Value × Nat)) :
    holds (calls.findOutcome function captured items) := by
  induction items with
  | nil => exact laws.pure _
  | cons entry rest ih =>
    apply laws.bind (item called function captured entry.1 entry.2)
    intro value
    split
    next => exact ih
    next => exact laws.pure _

theorem reduceItems (start : Value) (items : List (Value × Nat)) :
    holds (calls.reduceItems function captured start items) := by
  apply laws.foldlM
  rintro total ⟨item, position⟩
  dsimp only
  split
  next => exact called ..
  next => exact called ..
  next => exact called ..

theorem insertItem (item : Value) (sorted : List Value) :
    holds (calls.insertItem function captured item sorted) := by
  have before : ∀ last, holds (calls.isBefore function captured item last) := by
    intro last
    apply laws.bind (laws.attempted (called ..))
    intro outcome
    split
    next => exact laws.pure _
    next => exact laws.pure _
  induction sorted with
  | nil => exact laws.pure _
  | cons last rest ih =>
    apply laws.bind (before last)
    intro flag
    split
    next => exact laws.bind ih fun rest => laws.pure _
    next => exact laws.pure _

theorem sortBy (items : List Value) : holds (calls.sortBy function captured items) :=
  laws.bind
    (laws.foldlM (fun sorted item => laws.insertItem called function captured item sorted) [] items)
    fun _ => laws.pure _

theorem filterEntries (entries : List (String × Value)) :
    holds (calls.filterEntries function captured entries) := by
  induction entries with
  | nil => exact laws.pure _
  | cons entry rest ih =>
    have sorts : ∀ flag, holds (do
        let parts ← calls.filterEntries function captured rest
        Pure.pure (if isTrue flag then (entry :: parts.1, parts.2)
          else (parts.1, entry :: parts.2))) :=
      fun flag => laws.bind ih fun parts => laws.pure _
    unfold Calls.filterEntries
    dsimp only
    split
    next => exact laws.bind (called ..) sorts
    next => exact laws.bind (called ..) sorts

theorem arrayRoutine? (name : String) (items : List Value) :
    ∀ routine ∈ Script.arrayRoutine? calls name items function captured,
      routine.Satisfies holds := by
  have mapped := laws.mapItems called function captured (numbered items)
  have parts := laws.filterItems called function captured (numbered items)
  have found := laws.findItem? called function captured (numbered items)
  have sorted := laws.sortBy called function captured items
  unfold Script.arrayRoutine?
  split
  next => exact laws.giving _ (laws.map _ mapped)
  next => exact laws.giving _ (laws.bind parts fun _ => laws.pure _)
  next => exact laws.giving _ (laws.bind found fun _ => laws.pure _)
  next => exact laws.giving _ (laws.map _ (laws.holdForAll called function captured _))
  next => exact laws.giving _ (laws.bind found fun _ => laws.pure _)
  next => exact laws.giving _ (laws.bind found fun _ => laws.pure _)
  next => exact laws.giving _ (laws.findOutcome called function captured _)
  next => exact laws.giving _ (laws.reduceItems called function captured _ _)
  next => exact laws.giving _ (laws.reduceItems called function captured _ _)
  next =>
    rintro _ ⟨⟩
    exact laws.bind mapped fun _ => laws.pure _
  next =>
    rintro _ ⟨⟩
    exact laws.bind sorted fun _ => laws.pure _
  next =>
    rintro _ ⟨⟩
    exact laws.bind sorted fun _ => laws.pure _
  next => exact laws.giving _ (laws.map _ sorted)
  next =>
    rintro _ ⟨⟩
    exact laws.bind parts fun _ => laws.pure _
  next =>
    rintro _ ⟨⟩
    exact laws.bind parts fun _ => laws.pure _
  next => rintro _ ⟨⟩

theorem mapRoutine? (name : String) (entries : List (String × Value)) :
    ∀ routine ∈ Script.mapRoutine? calls name entries function captured,
      routine.Satisfies holds := by
  have parts := laws.filterEntries called function captured entries
  unfold Script.mapRoutine?
  split
  next => exact laws.giving _ (laws.bind parts fun _ => laws.pure _)
  next =>
    rintro _ ⟨⟩
    exact laws.bind parts fun _ => laws.pure _
  next =>
    rintro _ ⟨⟩
    exact laws.bind parts fun _ => laws.pure _
  next => rintro _ ⟨⟩

omit function captured

theorem arrayRoutine₂? (name : String) (items : List Value) (first second : Value) :
    ∀ routine ∈ Script.arrayRoutine₂? calls name items first second,
      routine.Satisfies holds := by
  unfold Script.arrayRoutine₂?
  split
  next => exact laws.giving _ (laws.reduceItems called _ _ _ _)
  next => exact laws.giving _ (laws.reduceItems called _ _ _ _)
  next => exact laws.giving _ (laws.map _ (laws.mapM (fun _ => called ..) _))
  next => exact plain _

theorem arrayMethod? (name : String) (items values : List Value) :
    ∀ routine ∈ Script.arrayMethod? calls name items values, routine.Satisfies holds := by
  unfold Script.arrayMethod?
  split
  next => exact plain _
  next function captured =>
    exact orElse (laws.arrayRoutine? called function captured name items) (plain _)
  next => exact plain _
  next => exact laws.arrayRoutine₂? called name items _ _
  next =>
    split
    next => exact plain _
    next => rintro _ ⟨⟩
  next => rintro _ ⟨⟩

theorem mapMethod? (name : String) (entries : List (String × Value)) (values : List Value) :
    ∀ routine ∈ Script.mapMethod? calls name entries values, routine.Satisfies holds := by
  unfold Script.mapMethod?
  split
  next => exact laws.mapRoutine? called _ _ name entries
  next => exact plain _

omit called in
theorem anyMethod? (answers : Answers) (name : String) (receiver : Value) (values : List Value) :
    ∀ routine ∈ Script.anyMethod? answers name receiver values, routine.Satisfies holds := by
  unfold Script.anyMethod?
  split
  next => exact plain _
  next => exact plain _
  next => exact plain _
  next => exact plain _
  next => exact laws.giving _ (laws.printValue receiver)
  next => exact laws.giving _ (laws.debugValue answers receiver)
  next =>
    rintro _ ⟨⟩
    exact laws.throw _
  next => rintro _ ⟨⟩

theorem method? (name : String) (receiver : Value) (values : List Value) :
    ∀ routine ∈ Script.method? calls name receiver values, routine.Satisfies holds := by
  unfold Script.method?
  apply orElse
  · split
    next => exact plain _
    next => exact plain _
    next => exact plain _
    next => exact plain _
    next => exact laws.arrayMethod? called name _ values
    next => exact laws.mapMethod? called name _ values
    next => exact plain _
    next => exact plain _
    next =>
      split
      next => exact laws.giving _ (laws.elapsed calls.answers _)
      next => rintro _ ⟨⟩
    next => exact plain _
    next =>
      split
      next => exact plain _
      next => rintro _ ⟨⟩
    next => rintro _ ⟨⟩
    next =>
      split
      next => exact laws.giving _ (called ..)
      next => exact plain _
      next =>
        split
        next => exact plain _
        next => rintro _ ⟨⟩
      next => rintro _ ⟨⟩
  · exact laws.anyMethod? calls.answers name receiver values

/-! ## Calls and steps -/

theorem callNamed (name : String) (values : List Value) :
    holds (Script.callNamed calls name values) := by
  have nullary : ∀ action ∈ Script.nullary? calls.answers name, holds action := by
    unfold Script.nullary?
    split <;> rintro _ ⟨⟩
    · exact laws.pure _
    · exact laws.pure _
    · exact laws.map _ (laws.now _)
    · exact laws.pure _
    · exact laws.printValue _
    · exact laws.debugValue _ _
    · exact laws.throw _
  unfold Script.callNamed
  apply laws.bind (laws.charge calls.answers)
  intro _
  split
  next =>
    split
    next action found => exact laws.bind (nullary action found) fun _ => laws.pure _
    next => exact laws.bind (laws.callOther _ name []) fun _ => laws.pure _
  next receiver values =>
    split
    next routine found =>
      exact laws.bind (laws.run (laws.method? called name receiver values routine found))
        fun _ => laws.pure _
    next => exact laws.bind (laws.callOther _ name _) fun _ => laws.pure _

theorem runMethod (name : String) (receiver : Value) (constant : Bool) (values : List Value) :
    holds (Script.runMethod calls name receiver constant values) := by
  unfold Script.runMethod
  split
  next => exact laws.pure _
  next =>
    split
    next => exact laws.pure _
    next =>
      apply laws.bind (laws.charge calls.answers)
      intro _
      split
      next => exact laws.callOther _ name _
      next routine found =>
        split
        next => exact laws.failing _
        next => exact laws.run (laws.method? called name receiver values routine found)

theorem walk (value : Value) (constant : Bool) (steps : List ReadyStep) :
    holds (Script.walk calls value constant steps) := by
  induction steps generalizing value constant with
  | nil => exact laws.pure _
  | cons step rest ih =>
    unfold Script.walk
    refine ifElse (laws.pure _) ?_
    cases step with
    | property optional name =>
      dsimp only
      split
      next =>
        split
        next => exact laws.bind (ih _ _) fun _ => laws.pure _
        next => exact laws.bind (ih _ _) fun _ => laws.pure _
      next =>
        have getter : ∀ read ∈ getter? calls.answers value name, holds read := by
          unfold getter?
          split
          next =>
            rintro _ ⟨⟩
            exact laws.elapsed _ _
          next =>
            intro read found
            obtain ⟨part, _, rfl⟩ := Option.map_eq_some_iff.mp found
            exact laws.pure part
        split
        next read found =>
          exact laws.bind (getter read found) fun _ => laws.bind (ih _ _) fun _ => laws.pure _
        next => exact laws.failing _
    | index optional position =>
      exact laws.bind (laws.failing _) fun _ => laws.bind (ih _ _) fun _ => laws.pure _
    | method optional name values =>
      exact laws.bind (laws.runMethod called name value constant values)
        fun _ => laws.bind (ih _ _) fun _ => laws.pure _

end Calls

end ActionLaws

end Recast.Script
