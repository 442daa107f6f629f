import Recast.Proofs.BoundNames
import Recast.Proofs.CalendarTime
import Recast.Proofs.Counting
import Recast.Proofs.ScopeLayout

set_option autoImplicit false

/-!
# The time that expressions see

A hole with a name, a dot and another name reads a property of what the first is bound to. The
properties of `time` are the units of the calendar time of the event; an event whose time is not on
the calendar has no scope and is dropped.
-/

namespace Recast

namespace Script

open Recast.Script.Parser

variable {functions : List Function} {base property : String}

/-! ## Properties as tokens -/

theorem lexFrom_dot (fuel : Nat) (holes : List Nat) (operand : Bool) {char : Char}
    (starts : isNameStart char = true) (rest : List Char) :
    lexFrom (fuel + 1) holes operand ('.' :: char :: rest) =
      (lexFrom fuel holes false (char :: rest)).map (.symbol "." :: ·) := by
  have other : '.' ≠ char := by
    rintro rfl
    cases starts
  have read : lexOne holes operand '.' (char :: rest) =
      some ⟨[.symbol "."], holes, false, char :: rest⟩ := by
    simp [lexOne, isNameStart, lexSign, notIn?, leading?, deadSymbols, symbols, Text.afterStart?,
      Reading.single, Token.endsOperand, Text.isBlank, other]
  rw [lexFrom_cons, read]
  rfl

theorem IsVariable.lexFrom_eq {name : String} (isVariable : IsVariable name) (fuel : Nat)
    (holes : List Nat) (operand : Bool) {rest : List Char} (stops : StopsWord rest) :
    lexFrom (fuel + 1) holes operand (name.toList ++ rest) =
      (lexFrom fuel holes true rest).map (.name name :: ·) := by
  obtain ⟨first, word, written, starts⟩ := isVariable.starts
  have letters := isVariable.letters
  have token := isVariable.token
  rw [written] at letters token ⊢
  rw [lexFrom_parts starts letters fuel holes operand stops, token]
  rfl

def propertyText (base property : String) : String :=
  base ++ "." ++ property

theorem toList_propertyText (base property : String) :
    (propertyText base property).toList = base.toList ++ '.' :: property.toList := by
  simp [propertyText, String.toList_append]

theorem lex?_property (isBase : IsVariable base) (isProperty : IsVariable property) :
    lex? (propertyText base property).toList =
      some [.name base, .symbol ".", .name property] := by
  obtain ⟨first, word, written, starts⟩ := isProperty.starts
  have dot : StopsWord ('.' :: property.toList) := by
    intro char first
    cases first
    rfl
  obtain ⟨fuel, room⟩ : ∃ fuel, (propertyText base property).toList.length + 1 = fuel + 4 := by
    obtain ⟨_, _, filled, _⟩ := isBase.starts
    refine ⟨(propertyText base property).toList.length - 3, ?_⟩
    rw [toList_propertyText, written, filled]
    simp only [List.length_append, List.length_cons]
    omega
  have last := isProperty.lexFrom_eq (fuel + 1) [] false stopsWord_nil
  rw [List.append_nil, written] at last
  rw [lex?, room, toList_propertyText, isBase.lexFrom_eq _ [] false dot, written,
    lexFrom_dot _ _ _ starts, last]
  rfl

/-! ## Properties as expressions -/

/-- A name after a dot is one step. -/
theorem parseSteps_property (fuel : Nat) {level : Nat} (room : level < 64) (first : Expr)
    (name : String) {rest : List Token} (stops : StopsExpr rest) :
    parseSteps (fuel + 2) .hole level first true
        ⟨.symbol "." :: .name name :: rest, functions⟩ =
      some ([.property false name], ⟨rest, functions⟩) := by
  have member : parseMember (fuel + 1) .hole level false ⟨.name name :: rest, functions⟩ =
      some (.property false name, ⟨rest, functions⟩) := by
    rw [parseMember, bind_some (peek?_eq _)]
    dsimp only [List.head?_cons]
    rw [bind_some (skip_cons _ _), bind_some (accept_of_stopsExpr stops)]
    rfl
  rw [parseSteps, bind_some (peek?_eq _)]
  dsimp only [List.head?_cons]
  rw [if_pos (by decide), bind_some (skip_cons _ _), bind_some (deeper_of_lt room _),
    bind_some (show parseMember (fuel + 1) .hole level (decide ("." = "?.")) _ = _ from member),
    bind_some (parseSteps_stop fuel level first false stops)]
  rfl

theorem parse?_property (base property : String) :
    parse? [.name base, .symbol ".", .name property] =
      some ⟨.chain (.variable base) [.property false property], []⟩ := by
  have noCall : accept "(" ⟨[.symbol ".", .name property], []⟩ =
      some (false, ⟨[.symbol ".", .name property], []⟩) :=
    accept_other (by decide) _
  have noSign : ∀ sign ∈ ["-", "+", "!"], Token.name base ≠ .symbol sign := by
    intro sign _ same
    cases same
  have chain : parseChain 110 .hole 1 ⟨[.name base, .symbol ".", .name property], []⟩ =
      (some (.chain (.variable base) [.property false property])).map (·, ⟨[], []⟩) := by
    rw [parseChain, bind_some (parsePrimary_name 108 1 base noCall),
      bind_some (parseSteps_property 107 (by decide) (.variable base) property stopsExpr_nil)]
    rfl
  have parsed : parseExpr (16 * [Token.name base, .symbol ".", .name property].length + 64) .hole 0
      ⟨[.name base, .symbol ".", .name property], []⟩ =
        (some (.chain (.variable base) [.property false property])).map (·, ⟨[], []⟩) :=
    parseExpr_chain 109 (by decide) noSign stopsExpr_nil chain
  exact parse?_eq parsed

theorem compile?_property (isBase : IsVariable base) (isProperty : IsVariable property) :
    compile? (propertyText base property) =
      some ⟨.chain (.variable base) [.property false property], []⟩ := by
  rw [compile?, lex?_property isBase isProperty]
  dsimp only [bind, Option.bind]
  rw [parse?_property]
  rfl

/-! ## Properties as values -/

theorem evalExpr_property {known : Bindings} {machine : Machine} (receiver : Value)
    {value part : Value} (bound : binding? known base = some (.fixed base value))
    (noMap : ∀ entries, value ≠ .map entries)
    (reads : getter? machine.calls.answers value property = some (pure part)) :
    Yields known 1 (evalExpr machine receiver (.chain (.variable base) [.property false property]))
      part := by
  have ready : Yields known 0 (evalSteps machine receiver [.property false property])
      [.property false property] := by
    rw [evalSteps, evalStep, evalSteps]
    exact .followed (.pure _) (.followed (.pure _) (.pure _))
  have walked : ∀ effects, walk machine.calls value true [.property false property] effects =
      (.ok (part, value), effects) := by
    intro effects
    cases value with
    | map entries => exact absurd rfl (noMap entries)
    | _ =>
      simp only [walk, ReadyStep.isOptional, Bool.false_and, Bool.false_eq_true, reads]
      rfl
  have whole : Yields known 0 (do
      let ready ← evalSteps machine receiver [.property false property]
      let held ← lookUp base
      let walked ← perform (walk machine.calls held.value held.constant ready)
      leave base held.constant (some walked.2)
      unshared walked.1) part :=
    .followed ready (.followed (.lookUp bound) (.followed (.perform walked)
      (.followed (.pure ()) (.unshared part))))
  rw [evalExpr]
  · exact whole.counting
  · rintro optional ⟨⟩

/-- What a time exposes under a name of its own: its units and the number of its seconds. -/
def timeParts (seconds : Int) : List (String × Int) :=
  (Calendar.DateTime.ofSeconds seconds).parts ++ [("epoch", seconds)]

theorem getter?_time (answers : Answers) {seconds value : Int} {name : String}
    (part : (name, value) ∈ timeParts seconds) :
    getter? answers (.time seconds) name = some (pure (.int value)) := by
  simp only [timeParts, Calendar.DateTime.parts, List.cons_append, List.nil_append, List.mem_cons,
    List.not_mem_nil, or_false, Prod.mk.injEq] at part
  rcases part with ⟨rfl, rfl⟩ | ⟨rfl, rfl⟩ | ⟨rfl, rfl⟩ | ⟨rfl, rfl⟩ | ⟨rfl, rfl⟩ | ⟨rfl, rfl⟩ |
    ⟨rfl, rfl⟩ <;> rfl

theorem isVariable_time : IsVariable "time" :=
  isVariable_iff.mpr (by decide +kernel)

theorem isVariable_timePart {seconds value : Int} {name : String}
    (part : (name, value) ∈ timeParts seconds) : IsVariable name := by
  have words : ∀ word ∈ ["year", "month", "day", "hour", "minute", "second", "epoch"],
      isBindable word = true ∧ word ∉ keywords ∧ word ∉ reservedWords ∧
        isName word.toList = true := by
    decide +kernel
  have listed : name ∈ (timeParts seconds).map Prod.fst := List.mem_map_of_mem part
  exact isVariable_iff.mpr (words name listed)

end Script

open Script

/-- The hole of a property. -/
theorem Template.rewrite_property {base property : String} (isBase : IsVariable base)
    (isProperty : IsVariable property) :
    rewrite true (Placeholder.token (propertyText base property)).toList =
      (propertyText base property).toList := by
  have calm : ∀ char ∈ (propertyText base property).toList, staysOutside char = true := by
    intro char member
    rw [toList_propertyText, List.mem_append, List.mem_cons] at member
    rcases member with inBase | rfl | inProperty
    · exact staysOutside_of_isNamePart (isBase.letters char inBase)
    · decide
    · exact staysOutside_of_isNamePart (isProperty.letters char inProperty)
  have shown : Text.isAllBlank (propertyText base property).toList = false := by
    obtain ⟨first, word, written, starts⟩ := isBase.starts
    rw [Text.isAllBlank, toList_propertyText, written, List.cons_append, List.all_cons,
      isBlank_of_isNameStart starts]
    rfl
  rw [rewrite, if_pos rfl, toList_token, singleHole?_outside calm shown []]
  rfl

/-- A property of a bound value, in a hole of its own. -/
theorem Settings.expand_property [Host] {event : Event} {hostname base property : String}
    {value part : Value} (inRange : Calendar.isInRange event.time = true)
    (isBase : IsVariable base) (isProperty : IsVariable property)
    (bound : binding? (eventBindings event hostname) base = some (.fixed base value))
    (noMap : ∀ entries, value ≠ .map entries)
    (reads : ∀ answers, getter? answers value property = some (pure part)) :
    (⟨.expression, hostname, true⟩ : Settings).expand event
        (Placeholder.token (propertyText base property)) = .ok part.toJson := by
  have compiled := compile?_property isBase isProperty
  rw [← @String.ofList_toList (propertyText base property),
    ← Template.rewrite_property isBase isProperty] at compiled
  have yields (answers : Answers) : Yields (eventBindings event hostname) 2
      (Compiled.evaluate ⟨.chain (.variable base) [.property false property], []⟩ answers)
      part := by
    have machineReads := reads (machineAt [] answers maxCalls).calls.answers
    exact (evalExpr_property .unit bound noMap machineReads).counting
  rw [Settings.expand_of_compile? inRange compiled, (yields _).run, if_pos (by decide)]

/-! ## The time of an event -/

/-- The name `time` is bound to the time of the event, unless a field hides it. -/
theorem binding?_time {event : Event} (unhidden : "time" ∉ Assoc.keys event.record)
    (hostname : String) :
    binding? (eventBindings event hostname) "time" = some (.fixed "time" (.time event.time)) := by
  have absent : Assoc.get? event.record.reverse "time" = none := by
    rw [Assoc.get?_eq_none_iff, Assoc.keys, List.map_reverse, List.mem_reverse]
    exact unhidden
  rw [eventBindings_eq, binding?_append, fieldBindings_eq, binding?_fields _ (by decide), absent]
  rfl

/-! ## Times that are not on the calendar -/

theorem Settings.scope_of_not_inRange [Host] {settings : Settings}
    (mode : settings.mode = .expression) {event : Event}
    (outside : Calendar.isInRange event.time = false) :
    settings.scope event =
      .error (.evaluation (Placeholder.token "time") (.timeOutOfRange event.time)) := by
  rw [scope, mode]
  dsimp only
  rw [outside]
  rfl

namespace Engine

theorem transform_of_not_inRange [Host] {engine : Engine}
    (mode : engine.settings.mode = .expression) {event : Event}
    (outside : Calendar.isInRange event.time = false) :
    engine.transform event = ⟨.error ⟨event.tag, .evaluation (Placeholder.token "time")
      (.timeOutOfRange event.time)⟩, engine, [], []⟩ := by
  rw [transform, Settings.scope_of_not_inRange mode outside]

theorem process_of_not_inRange [Host] {engine : Engine} (mode : engine.settings.mode = .expression)
    (metrics : Metrics) {event : Event} (outside : Calendar.isInRange event.time = false) :
    engine.process metrics event = ⟨none, engine, { metrics with
      received := metrics.received + 1, dropped := metrics.dropped + 1 },
      [.droppedEvent "evaluation" event.tag]⟩ := by
  rw [process, transform_of_not_inRange mode outside]
  rfl

theorem time_of_transform [Host] {engine : Engine} {event out : Event}
    (succeeded : (engine.transform event).outcome = .ok out) : out.time = event.time := by
  unfold transform at succeeded
  dsimp only at succeeded
  split at succeeded
  next => cases succeeded
  next =>
    split at succeeded
    next => cases succeeded
    next =>
      split at succeeded
      next => cases succeeded
      next =>
        cases succeeded
        rfl

end Engine

/-- Every event has a valid calendar time that many seconds after the epoch, or before it, and
times of events compare as their numbers do. Expressions of an event whose year lies between
-262143 and 262142 see this time, unless a field hides it; with a time outside these years there is
no scope and the event is dropped. What comes out keeps the time of the event. -/
theorem expressions_see_event_time [Host] (event : Event) (hostname : String) :
    (∃ time : Calendar.DateTime, time.IsValid ∧ Calendar.Elapsed time event.time ∧
      (Calendar.isInRange event.time = true ↔
        -262143 ≤ time.date.year ∧ time.date.year ≤ 262142) ∧
      (Calendar.isInRange event.time = true → "time" ∉ Assoc.keys event.record →
        ∀ name value, (name, value) ∈ time.parts ++ [("epoch", event.time)] →
          (⟨.expression, hostname, true⟩ : Settings).expand event
              (Placeholder.token (propertyText "time" name)) = .ok (.int value) ∧
          ∀ machine receiver, Yields (eventBindings event hostname) 1
            (evalExpr machine receiver (.chain (.variable "time") [.property false name]))
            (.int value)) ∧
      ∀ (other : Event) (otherTime : Calendar.DateTime), Calendar.Elapsed otherTime other.time →
        (event.time < other.time ↔ time.fields < otherTime.fields) ∧
          (event.time = other.time ↔ time.fields = otherTime.fields)) ∧
    ∀ (engine : Engine) (metrics : Metrics),
      (engine.settings.mode = .expression → Calendar.isInRange event.time = false →
        let error := .evaluation (Placeholder.token "time") (.timeOutOfRange event.time)
        engine.settings.scope event = .error error ∧
          engine.transform event = ⟨.error ⟨event.tag, error⟩, engine, [], []⟩ ∧
          engine.process metrics event = ⟨none, engine, { metrics with
            received := metrics.received + 1, dropped := metrics.dropped + 1 },
            [.droppedEvent "evaluation" event.tag]⟩) ∧
      ∀ out, (engine.process metrics event).emitted = some out → out.time = event.time := by
  constructor
  · refine ⟨.ofSeconds event.time, Calendar.DateTime.ofSeconds_isValid _,
      Calendar.elapsed_ofSeconds _, Calendar.isInRange_iff _, ?_, ?_⟩
    · intro inRange unhidden name value part
      have bound := binding?_time unhidden hostname
      have noMap : ∀ entries, Value.time event.time ≠ .map entries := fun _ => Value.noConfusion
      have isPart := isVariable_timePart part
      refine ⟨?_, fun machine receiver => ?_⟩
      · exact Settings.expand_property inRange isVariable_time isPart bound noMap
          fun answers => getter?_time answers part
      · exact evalExpr_property receiver bound noMap (getter?_time _ part)
    · intro other otherTime elapsed
      rw [← elapsed.ofSeconds_eq]
      have order := Calendar.DateTime.fields_strictMono
      exact ⟨order.lt_iff_lt.symm, order.injective.eq_iff.symm⟩
  · intro engine metrics
    refine ⟨fun mode outside => ⟨Settings.scope_of_not_inRange mode outside,
      Engine.transform_of_not_inRange mode outside,
      Engine.process_of_not_inRange mode metrics outside⟩, ?_⟩
    intro out emitted
    rw [(engine.process_eq metrics event).1] at emitted
    cases outcome : (engine.transform event).outcome with
    | error error =>
      rw [outcome] at emitted
      cases emitted
    | ok found =>
      rw [outcome] at emitted
      cases emitted
      exact Engine.time_of_transform outcome

/-- The last second of a leap day before the year zero, and a time past the calendar. -/
theorem expressions_see_event_time_leap_day :
    let event : Event := ⟨"a", -62288265601, [("year", .int 5)]⟩
    let late : Event := ⟨"a", 9223372036854775807, []⟩
    let settings : Settings := ⟨.expression, "h", true⟩
    let engine : Engine := ⟨settings, .ofSource "$\x7btime.year\x7d", [], none, false⟩
    Calendar.Elapsed ⟨⟨-4, 2, 29⟩, 23, 59, 59⟩ event.time ∧
      settings.expand event "$\x7btime.year\x7d" = .ok (.int (-4)) ∧
      settings.expand event "$\x7btime.day\x7d" = .ok (.int 29) ∧
      settings.expand event "$\x7btime.epoch\x7d" = .ok (.int (-62288265601)) ∧
      (engine.process .zero late).emitted = none := by
  intro event late settings engine
  obtain ⟨⟨time, _, elapsed, _, seen, _⟩, _⟩ := expressions_see_event_time event "h"
  obtain rfl : ⟨⟨-4, 2, 29⟩, 23, 59, 59⟩ = time := by
    rw [← elapsed.ofSeconds_eq]
    decide
  have reads := seen (by decide) (by decide)
  refine ⟨elapsed, (reads "year" (-4) (by decide)).1, (reads "day" 29 (by decide)).1,
    (reads "epoch" _ (by decide)).1, ?_⟩
  obtain ⟨_, drops⟩ := expressions_see_event_time late "h"
  rw [((drops engine .zero).1 rfl (by decide)).2.2]

end Recast
