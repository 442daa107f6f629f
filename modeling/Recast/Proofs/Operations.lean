import Recast.Proofs.EvalSteps

set_option autoImplicit false

/-!
# The count of operations

An evaluation takes as many operations however many were taken before it, and is the same then, as
long as there are enough of them.
-/

namespace Recast.Script

def Memory.operations (memory : Memory) : Nat :=
  memory.effects.operations

/-- The memory as it would be after a number of operations. -/
def Memory.startingAt (memory : Memory) (count : Nat) : Memory :=
  { memory with effects := { memory.effects with operations := count } }

@[simp] theorem Memory.operations_startingAt (memory : Memory) (count : Nat) :
    (memory.startingAt count).operations = count := rfl

@[simp] theorem Memory.startingAt_startingAt (memory : Memory) (count other : Nat) :
    (memory.startingAt count).startingAt other = memory.startingAt other := rfl

@[simp] theorem Memory.startingAt_operations (memory : Memory) :
    memory.startingAt memory.operations = memory := rfl

/-- The memory after one more operation. -/
def Memory.counted (memory : Memory) : Memory :=
  { memory.startingAt (memory.operations + 1) with shared := false }

/-! ## Counting -/

section Counting

variable {α : Type} {memory : Memory}

theorem operate_of_lt (room : memory.operations < maxOperations) :
    perform operate memory = (.ok (), memory.startingAt (memory.operations + 1)) := by
  have enough : ¬ maxOperations < memory.effects.operations + 1 := Nat.not_lt.mpr room
  rw [perform, operate]
  dsimp only
  rw [if_neg enough]
  rfl

theorem operate_of_le (full : maxOperations ≤ memory.operations) :
    perform operate memory =
      (.error (.fault .tooManyOperations), memory.startingAt (memory.operations + 1)) := by
  have more : maxOperations < memory.effects.operations + 1 := Nat.lt_succ_of_le full
  rw [perform, operate]
  dsimp only
  rw [if_pos more]
  rfl

theorem counting_of_lt (run : Eval α) (room : memory.operations < maxOperations) :
    counting run memory = run memory.counted := by
  rw [counting, bind_eq, operate_of_lt room]
  rfl

theorem counting_of_le (run : Eval α) (full : maxOperations ≤ memory.operations) :
    counting run memory = (.error (.fault .tooManyOperations),
      memory.startingAt (memory.operations + 1)) := by
  rw [counting, bind_eq, operate_of_le full]

end Counting

/-! ## Runs that start later -/

section Shifting

variable {α β : Type}

/-- The computation takes so many operations, and from any other start with room for them it is the
same. -/
def Takes (run : Eval α) (memory : Memory) (count : Nat) : Prop :=
  (run memory).2.operations = memory.operations + count ∧
    (memory.operations + count ≤ maxOperations → ∀ start, start + count ≤ maxOperations →
      run (memory.startingAt start) = ((run memory).1, (run memory).2.startingAt (start + count)))

def Shifts (run : Eval α) : Prop :=
  ∀ memory, ∃ count, Takes run memory count

theorem Shifts.bind {first : Eval α} {next : α → Eval β} (begins : Shifts first)
    (goes : ∀ value, Shifts (next value)) : Shifts (first >>= next) := by
  intro memory
  obtain ⟨before, taken, shifted⟩ := begins memory
  cases ran : first memory with
  | mk outcome middle =>
    rw [ran] at taken shifted
    cases outcome with
    | error stop =>
      refine ⟨before, ?_, fun room start enough => ?_⟩
      · rw [bind_eq, ran]
        exact taken
      · rw [bind_eq, bind_eq, ran, shifted room start enough]
    | ok value =>
      obtain ⟨after, takenLater, shiftedLater⟩ := goes value middle
      have whole : (first >>= next) memory = next value middle := by rw [bind_eq, ran]
      refine ⟨before + after, ?_, fun room start enough => ?_⟩
      · rw [whole, takenLater, taken, Nat.add_assoc]
      · have later := shiftedLater (by rw [taken]; omega) (start + before) (by omega)
        rw [bind_eq, shifted (by omega) start (by omega), whole, ← Nat.add_assoc]
        exact later

/-- A computation that neither takes operations nor depends on how many were taken. -/
theorem Shifts.of_still {run : Eval α}
    (still : ∀ memory, (run memory).2.operations = memory.operations ∧ ∀ start,
      run (memory.startingAt start) = ((run memory).1, (run memory).2.startingAt start)) :
    Shifts run :=
  fun memory => ⟨0, (still memory).1, fun _ start _ => (still memory).2 start⟩

theorem Shifts.examined {run : Eval α} (shifts : Shifts run) : Shifts (examined run) := by
  intro memory
  obtain ⟨count, taken, shifted⟩ := shifts memory
  refine ⟨count, taken, fun room start enough => ?_⟩
  rw [Script.examined, Script.examined, shifted room start enough]

theorem Shifts.inBlock {run : Eval α} (shifts : Shifts run) : Shifts (inBlock run) := by
  intro memory
  obtain ⟨count, taken, shifted⟩ := shifts memory
  refine ⟨count, taken, fun room start enough => ?_⟩
  rw [Script.inBlock, Script.inBlock, shifted room start enough]
  rfl

theorem Shifts.operate : Shifts (perform operate) := by
  intro memory
  refine ⟨1, ?_, fun room start enough => ?_⟩
  · rcases Nat.lt_or_ge memory.operations maxOperations with room | full
    · rw [operate_of_lt room]
      rfl
    · rw [operate_of_le full]
      rfl
  · have later : (memory.startingAt start).operations < maxOperations := enough
    rw [operate_of_lt room, operate_of_lt later]
    rfl

/-- What an action does among bindings is counted, too. -/
theorem Shifts.within (bindings : Bindings) {run : Eval α} (shifts : Shifts run) :
    Shifts (perform (within bindings run)) := by
  intro memory
  obtain ⟨count, taken, shifted⟩ := shifts ⟨bindings, false, memory.effects⟩
  refine ⟨count, taken, fun room start enough => ?_⟩
  have later := shifted room start enough
  have moved : perform (Script.within bindings run) (memory.startingAt start) =
      ((run ((Memory.mk bindings false memory.effects).startingAt start)).1,
        { memory with effects :=
            (run ((Memory.mk bindings false memory.effects).startingAt start)).2.effects }) := rfl
  rw [moved, later]
  rfl

theorem Shifts.lookUp (name : String) : Shifts (lookUp name) := by
  apply Shifts.of_still
  intro memory
  cases found : binding? memory.bindings name with
  | none => simp [Script.lookUp, Memory.startingAt, Memory.operations, found]
  | some binding => simp [Script.lookUp, Memory.startingAt, Memory.operations, found]

theorem perform_bind (first : Action α) (next : α → Action β) :
    perform (first >>= next) = perform first >>= fun value => perform (next value) := by
  funext memory
  rw [bind_eq]
  simp only [perform, bind, ExceptT.bind, ExceptT.mk, StateT.bind, ExceptT.bindCont]
  obtain ⟨outcome, after⟩ := first memory.effects
  cases outcome <;> rfl

end Shifting

/-- Every step of an evaluation is the same from any start with room for it. -/
theorem stepLaws_shifts :
    StepLaws Permits.everything (fun action => Shifts (perform action)) (@Shifts) where
  actions := {
    settled := fun outcome => .of_still fun memory => ⟨rfl, fun _ => rfl⟩
    operate := .operate
    ask := .of_still fun memory => ⟨rfl, fun _ => rfl⟩
    printLine := fun line => .of_still fun memory => ⟨rfl, fun _ => rfl⟩
    attempted := fun shifts => shifts.examined
    bind := by
      intro α β first next begins goes
      rw [perform_bind]
      exact begins.bind goes }
  perform := fun shifts => shifts
  bind := Shifts.bind
  lookUp := by
    intro α name next goes
    exact (Shifts.lookUp name).bind fun held => goes held (Or.inr trivial)
  inquire := by
    intro α name next _ goes
    apply (Shifts.lookUp name).bind
    intro held
    apply (Shifts.of_still fun memory => ⟨rfl, fun _ => rfl⟩ : Shifts wasShared).bind
    exact fun flag => goes held flag (Or.inr trivial)
  wasShared := fun _ => .of_still fun memory => ⟨rfl, fun _ => rfl⟩
  isBound := fun name => .of_still fun memory => ⟨rfl, fun _ => rfl⟩
  unshared := fun value => .of_still fun memory => ⟨rfl, fun _ => rfl⟩
  store := fun _ name value => .of_still fun memory => ⟨rfl, fun _ => rfl⟩
  share := fun name _ => .of_still fun memory => ⟨rfl, fun _ => rfl⟩
  add := fun _ name constant value => .of_still fun memory => ⟨rfl, fun _ => rfl⟩
  inBlock := Shifts.inBlock
  examined := Shifts.examined

/-! ## Runs from like memories -/

section Likeness

variable {α β : Type}

/-- The memories differ at most in the number of operations, and in whether the last value is
shared. -/
structure Memory.Like (left right : Memory) : Prop where
  bindings : left.bindings = right.bindings
  asked : left.effects.asked = right.effects.asked
  printed : left.effects.printed = right.effects.printed

theorem Memory.Like.refl (memory : Memory) : memory.Like memory :=
  ⟨rfl, rfl, rfl⟩

theorem Memory.Like.trans {first second third : Memory} (one : first.Like second)
    (two : second.Like third) : first.Like third :=
  ⟨one.bindings.trans two.bindings, one.asked.trans two.asked, one.printed.trans two.printed⟩

theorem Memory.like_counted (memory : Memory) : memory.counted.Like memory :=
  ⟨rfl, rfl, rfl⟩

theorem Memory.Like.counted_eq {left right : Memory} (like : left.Like right) :
    left.counted = (right.startingAt left.operations).counted := by
  obtain ⟨bindings, shared, operations, asked, printed⟩ := left
  obtain ⟨rfl, rfl, rfl⟩ := like
  rfl

/-- From every memory like the one before, with room for so many operations, the computation comes
to the outcome in no more than these, and leaves a memory like the one after. -/
def Gives (before : Memory) (count : Nat) (run : Eval α) (outcome : Except Stop α)
    (after : Memory) : Prop :=
  ∀ memory : Memory, memory.Like before → memory.operations + count ≤ maxOperations →
    ∃ left, run memory = (outcome, left) ∧ left.Like after ∧
      left.operations ≤ memory.operations + count

namespace Gives

variable {before middle after : Memory} {count other : Nat}

theorem of_like {start : Memory} {run : Eval α} {outcome : Except Stop α}
    (gives : Gives before count run outcome after) (like : start.Like before) :
    Gives start count run outcome after :=
  fun memory same room => gives memory (same.trans like) room

theorem bind {first : Eval α} {next : α → Eval β} {value : α} {outcome : Except Stop β}
    (begins : Gives before count first (.ok value) middle)
    (goes : Gives middle other (next value) outcome after) :
    Gives before (count + other) (first >>= next) outcome after := by
  intro memory like room
  obtain ⟨between, ran, likeMiddle, taken⟩ := begins memory like (by omega)
  obtain ⟨left, later, ends, takenLater⟩ := goes between likeMiddle (by omega)
  exact ⟨left, by rw [bind_eq, ran]; exact later, ends, by omega⟩

theorem bind_error {first : Eval α} {stop : Stop}
    (begins : Gives before count first (.error stop) after) (next : α → Eval β) :
    Gives before count (first >>= next) (.error stop) after := by
  intro memory like room
  obtain ⟨left, ran, ends, taken⟩ := begins memory like room
  exact ⟨left, by rw [bind_eq, ran], ends, taken⟩

/-- What follows takes no operation. -/
theorem followed {first : Eval α} {next : α → Eval β} {value : α} {outcome : Except Stop β}
    (begins : Gives before count first (.ok value) middle)
    (goes : Gives middle 0 (next value) outcome after) :
    Gives before count (first >>= next) outcome after :=
  begins.bind goes

theorem pure (before : Memory) (value : α) : Gives before 0 (Pure.pure value) (.ok value) before :=
  fun memory like _ => ⟨memory, rfl, like, Nat.le_refl _⟩

theorem unshared (before : Memory) (value : Value) :
    Gives before 0 (Script.unshared value) (.ok value) before := by
  intro memory like _
  exact ⟨{ memory with shared := false }, rfl, ⟨like.bindings, like.asked, like.printed⟩,
    Nat.le_refl _⟩

theorem liftExcept (before : Memory) (outcome : Except Fault α) :
    Gives before 0 (Script.liftExcept outcome) (outcome.mapError .fault) before :=
  fun memory like _ => ⟨memory, rfl, like, Nat.le_refl _⟩

theorem counting {run : Eval α} {outcome : Except Stop α}
    (gives : Gives before count run outcome after) :
    Gives before (count + 1) (Script.counting run) outcome after := by
  intro memory like room
  have counts : memory.counted.operations = memory.operations + 1 := rfl
  obtain ⟨left, ran, ends, taken⟩ :=
    gives memory.counted (memory.like_counted.trans like) (by omega)
  refine ⟨left, ?_, ends, by omega⟩
  rw [counting_of_lt run (by omega), ran]

/-- What one run has given is given again later. -/
theorem of_counting {run : Eval α} (shifts : Shifts (Script.counting run))
    {outcome : Except Stop α} (ran : Script.counting run before = (outcome, after))
    (within : after.operations ≤ maxOperations) :
    ∃ count, after.operations = before.operations + count ∧
      Gives before count (Script.counting run) outcome after := by
  obtain ⟨count, taken, shifted⟩ := shifts before
  rw [ran] at taken shifted
  dsimp only at taken shifted
  refine ⟨count, taken, ?_⟩
  intro memory like room
  have again := shifted (by omega) memory.operations room
  have early : memory.operations < maxOperations := by
    apply Nat.lt_of_not_le
    intro full
    have fullThen : maxOperations ≤ (before.startingAt memory.operations).operations := full
    rw [counting_of_le run fullThen] at again
    have one : memory.operations + 1 = memory.operations + count :=
      congrArg (fun result => result.2.operations) again
    omega
  -- Whether the last value was shared makes no difference, because the first operation clears that.
  have same : Script.counting run memory =
      Script.counting run (before.startingAt memory.operations) := by
    have earlyThen : (before.startingAt memory.operations).operations < maxOperations := early
    rw [counting_of_lt run early, counting_of_lt run earlyThen, like.counted_eq]
  exact ⟨_, same.trans again, ⟨rfl, rfl, rfl⟩, Nat.le_refl _⟩

end Gives

/-- Every expression takes an operation first. -/
theorem evalExpr_counts (machine : Machine) (receiver : Value) (expr : Expr) :
    ∃ run, evalExpr machine receiver expr = counting run := by
  cases expr
  all_goals
    rw [evalExpr.eq_def]
    exact ⟨_, rfl⟩

/-- What an expression gives among bindings it gives again later. -/
theorem evalExpr_gives (functions : List Function) (answers : Answers) (depth : Nat)
    (receiver : Value) (expr : Expr) {before after : Memory} {outcome : Except Stop Value}
    (ran : evalExpr (machineAt functions answers depth) receiver expr before = (outcome, after))
    (within : after.operations ≤ maxOperations) :
    ∃ count, after.operations = before.operations + count ∧
      Gives before count (evalExpr (machineAt functions answers depth) receiver expr) outcome
        after := by
  have shifts : Shifts (evalExpr (machineAt functions answers depth) receiver expr) :=
    stepLaws_shifts.anyExpr Shifts.within functions answers depth receiver expr
  obtain ⟨run, counts⟩ := evalExpr_counts (machineAt functions answers depth) receiver expr
  rw [counts] at ran shifts ⊢
  exact Gives.of_counting shifts ran within

/-- What the expression of a script gives when it is evaluated as part of another. -/
theorem Compiled.body_gives {script : Compiled} {answers : Answers} {known : Bindings}
    {outcome : Except Stop Value} {after : Memory}
    (ran : script.evaluate answers ⟨known, false, .none⟩ = (outcome, after))
    (within : after.operations ≤ maxOperations) :
    ∃ count, after.operations = count + 1 ∧
      Gives ⟨known, false, .none⟩ count
        (evalExpr (machineAt script.functions answers maxCalls) .unit script.body) outcome
        after := by
  have room : (⟨known, false, .none⟩ : Memory).operations < maxOperations := Nat.zero_lt_succ _
  rw [Compiled.evaluate, counting_of_lt _ room] at ran
  obtain ⟨count, taken, gives⟩ := evalExpr_gives _ _ _ _ _ ran within
  have one : (Memory.counted ⟨known, false, .none⟩).operations = 1 := rfl
  refine ⟨count, by omega, fun memory like => gives memory ?_⟩
  exact ⟨like.bindings, like.asked, like.printed⟩

end Likeness

/-! ## Values among bindings -/

theorem Compiled.run_eq (script : Compiled) (answers : Answers) (known : Bindings) :
    script.run answers known =
      (settledOutcome (script.evaluate answers ⟨known, false, .none⟩).1,
        (script.evaluate answers ⟨known, false, .none⟩).2) := rfl

theorem Gives.run {script : Compiled} {answers : Answers} {known : Bindings} {count : Nat}
    {outcome : Except Stop Value} {after : Memory}
    (gives : Gives ⟨known, false, .none⟩ count (script.evaluate answers) outcome after)
    (room : count ≤ maxOperations) :
    (script.run answers known).1 = settledOutcome outcome := by
  have start : (⟨known, false, .none⟩ : Memory).operations + count = count := Nat.zero_add count
  obtain ⟨left, ran, _, _⟩ := gives ⟨known, false, .none⟩ (.refl _) (by omega)
  rw [Compiled.run_eq, ran]

/-- Among these bindings the computation takes so many operations and gives the value, unless there
are not as many left. -/
structure Yields {α : Type} (known : Bindings) (count : Nat) (run : Eval α) (value : α) : Prop where
  gives : ∀ memory, memory.bindings = known → memory.operations + count ≤ maxOperations →
    ∃ shared, run memory =
      (.ok value, { memory.startingAt (memory.operations + count) with shared := shared })
  stops : ∀ memory, memory.bindings = known → memory.operations ≤ maxOperations →
    maxOperations < memory.operations + count →
    (run memory).1 = .error (.fault .tooManyOperations)

namespace Yields

variable {α β : Type} {known : Bindings} {count : Nat}

theorem bind {other : Nat} {first : Eval α} {next : α → Eval β} {middle : α} {value : β}
    (begins : Yields known count first middle) (goes : Yields known other (next middle) value) :
    Yields known (count + other) (first >>= next) value := by
  constructor
  · intro memory bound room
    rw [← Nat.add_assoc] at room ⊢
    obtain ⟨shared, ran⟩ := begins.gives memory bound (by omega)
    obtain ⟨last, later⟩ := goes.gives
      { memory.startingAt (memory.operations + count) with shared := shared } bound room
    exact ⟨last, by rw [bind_eq, ran]; exact later⟩
  · intro memory bound within full
    rw [← Nat.add_assoc] at full
    rw [bind_eq]
    rcases Nat.lt_or_ge maxOperations (memory.operations + count) with early | room
    · have stopped := begins.stops memory bound within early
      cases ran : first memory with
      | mk outcome after =>
        rw [ran] at stopped
        cases stopped
        rfl
    · obtain ⟨shared, ran⟩ := begins.gives memory bound room
      rw [ran]
      exact goes.stops { memory.startingAt (memory.operations + count) with shared := shared }
        bound room full

/-- What follows takes no operation. -/
theorem followed {first : Eval α} {next : α → Eval β} {middle : α} {value : β}
    (begins : Yields known count first middle) (goes : Yields known 0 (next middle) value) :
    Yields known count (first >>= next) value :=
  begins.bind goes

/-- A computation that takes no operation. -/
theorem of_still {run : Eval α} {value : α}
    (still : ∀ memory, memory.bindings = known →
      ∃ shared, run memory = (.ok value, { memory with shared := shared })) :
    Yields known 0 run value := by
  constructor
  · exact fun memory bound _ => still memory bound
  · exact fun memory _ within full => absurd within (Nat.not_le.mpr full)

theorem pure (value : α) : Yields known 0 (Pure.pure value) value :=
  of_still fun memory _ => ⟨memory.shared, rfl⟩

theorem unshared (value : Value) : Yields known 0 (Script.unshared value) value :=
  of_still fun _ _ => ⟨false, rfl⟩

theorem perform {action : Action α} {value : α}
    (acts : ∀ effects, action effects = (.ok value, effects)) :
    Yields known 0 (Script.perform action) value := by
  apply of_still
  intro memory _
  refine ⟨memory.shared, ?_⟩
  rw [Script.perform, acts]

theorem lookUp {name : String} {binding : Binding} (bound : binding? known name = some binding) :
    Yields known 0 (Script.lookUp name) binding.held := by
  apply of_still
  intro memory same
  refine ⟨binding.shared, ?_⟩
  rw [Script.lookUp, same, bound]

theorem counting {run : Eval α} {value : α} (yields : Yields known count run value) :
    Yields known (count + 1) (Script.counting run) value := by
  constructor
  · intro memory bound room
    have before : memory.operations < maxOperations := by omega
    rw [counting_of_lt run before]
    have counts : memory.counted.operations + count = memory.operations + (count + 1) := by
      rw [Nat.add_comm count, ← Nat.add_assoc]
      rfl
    obtain ⟨shared, ran⟩ := yields.gives memory.counted bound (by omega)
    rw [counts] at ran
    exact ⟨shared, ran⟩
  · intro memory bound within full
    rcases Nat.lt_or_ge memory.operations maxOperations with room | none
    · rw [counting_of_lt run room]
      apply yields.stops memory.counted bound room
      have counts : memory.counted.operations = memory.operations + 1 := rfl
      omega
    · rw [counting_of_le run none]

theorem evaluate {script : Compiled} {answers : Answers} {value : Value}
    (yields : Yields known count (script.evaluate answers) value) (room : count ≤ maxOperations) :
    ∃ ended, script.evaluate answers ⟨known, false, .none⟩ = (.ok value, ended) ∧
      ended.operations = count := by
  have start : (⟨known, false, .none⟩ : Memory).operations + count = count := Nat.zero_add count
  obtain ⟨shared, ran⟩ := yields.gives ⟨known, false, .none⟩ rfl (by omega)
  exact ⟨_, ran, start⟩

/-- What a script gives that takes so many operations. -/
theorem run {script : Compiled} {answers : Answers} {value : Value}
    (yields : Yields known count (script.evaluate answers) value) :
    (script.run answers known).1 =
      if count ≤ maxOperations then .ok value else .error .tooManyOperations := by
  rw [Compiled.run_eq]
  by_cases room : count ≤ maxOperations
  · obtain ⟨_, ran, _⟩ := yields.evaluate room
    rw [ran, if_pos room]
    rfl
  · have start : (⟨known, false, .none⟩ : Memory).operations + count = count := Nat.zero_add count
    have stopped := yields.stops ⟨known, false, .none⟩ rfl (Nat.zero_le _) (by omega)
    rw [stopped, if_neg room]
    rfl

end Yields

end Recast.Script
