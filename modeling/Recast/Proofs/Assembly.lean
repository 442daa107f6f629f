import Mathlib
import Recast.Proofs.History

set_option autoImplicit false

/-!
# What transforming gives

The templates of an engine are expanded one after another in the one scope of the original event.
The first that fails decides the error. If none does, the outgoing record is the base with the
expanded fields written into it, each new key after the known ones, and with the removed keys left
out.
-/

namespace Recast

/-- The outcomes of templates that are expanded one after another in one scope. -/
def expandInTurn (settings : Settings) (scope : Scope) :
    List Template → List (Except TemplateError Json.Value)
  | [] => []
  | template :: rest =>
    let expansion := scope.expand settings template
    expansion.outcome :: expandInTurn settings expansion.scope rest

/-- The error of the first outcome that is one. -/
def firstError? {ε α : Type} (outcomes : List (Except ε α)) : Option ε :=
  outcomes.findSome? fun outcome =>
    match outcome with
    | .error error => some error
    | .ok _ => none

theorem firstError?_eq_none_iff {ε α : Type} (outcomes : List (Except ε α)) :
    firstError? outcomes = none ↔ ∃ values : List α, outcomes = values.map .ok := by
  induction outcomes with
  | nil => exact ⟨fun _ => ⟨[], rfl⟩, fun _ => rfl⟩
  | cons outcome rest ih =>
    cases outcome with
    | error error =>
      constructor
      · intro none
        simp [firstError?] at none
      · rintro ⟨values, equal⟩
        cases values <;> cases equal
    | ok value =>
      have step : firstError? (.ok value :: rest) = firstError? rest := rfl
      rw [step, ih]
      constructor
      · rintro ⟨values, rfl⟩
        exact ⟨value :: values, rfl⟩
      · rintro ⟨values, equal⟩
        cases values with
        | nil => cases equal
        | cons first values =>
          obtain ⟨_, others⟩ := List.cons.inj equal
          exact ⟨values, others⟩

theorem values_or_firstError? {ε α : Type} (outcomes : List (Except ε α)) :
    (∃ values : List α, outcomes = values.map .ok) ∨
      ∃ error, firstError? outcomes = some error := by
  cases found : firstError? outcomes with
  | none => exact .inl ((firstError?_eq_none_iff outcomes).mp found)
  | some error => exact .inr ⟨error, rfl⟩

theorem mem_of_firstError? {ε α : Type} {outcomes : List (Except ε α)} {error : ε}
    (found : firstError? outcomes = some error) : .error error ∈ outcomes := by
  obtain ⟨outcome, member, same⟩ := List.exists_of_findSome?_eq_some found
  cases outcome with
  | error other =>
    cases same
    exact member
  | ok value => cases same

/-- The scope of an event always builds for placeholders, and for expressions if the time lies
within the calendar. -/
theorem Settings.scope_builds_iff [Host] (settings : Settings) (event : Event) :
    (∃ scope, settings.scope event = .ok scope) ↔
      settings.mode = .placeholder ∨ Calendar.isInRange event.time = true := by
  unfold scope
  cases settings.mode with
  | placeholder => exact ⟨fun _ => .inl rfl, fun _ => ⟨_, rfl⟩⟩
  | expression =>
    by_cases inRange : Calendar.isInRange event.time = true
    · simp [inRange]
    · simp [inRange]

/-- The fields expand to their values in turn, or fail as the first of them does. -/
theorem expandFields_outcome (settings : Settings) (scope : Scope) (fields : FieldMap) :
    (∀ values : List Json.Value,
      expandInTurn settings scope (fields.map Prod.snd) = values.map .ok →
      (expandFields settings scope fields).outcome = .ok ((Assoc.keys fields).zip values)) ∧
    ∀ error, firstError? (expandInTurn settings scope (fields.map Prod.snd)) = some error →
      (expandFields settings scope fields).outcome = .error error := by
  induction fields generalizing scope with
  | nil =>
    constructor
    · intro values _
      rfl
    · intro error found
      cases found
  | cons field rest ih =>
    obtain ⟨key, template⟩ := field
    obtain ⟨succeeds, fails⟩ := ih (scope.expand settings template).scope
    simp only [List.map_cons, expandInTurn, expandFields]
    cases (scope.expand settings template).outcome with
    | error error =>
      constructor
      · intro values equal
        cases values <;> cases equal
      · intro other found
        cases found
        rfl
    | ok value =>
      constructor
      · intro values equal
        cases values with
        | nil => cases equal
        | cons first values =>
          obtain ⟨head, others⟩ := List.cons.inj equal
          cases head
          simp only [succeeds values others]
          rfl
      · intro error found
        simp only [fails error found]
        rfl

namespace Engine

/-- The templates in the order in which they are expanded. -/
def templates (engine : Engine) : List Template :=
  engine.outputTag :: engine.fields.map Prod.snd

/-- The entries that the fields are written into. -/
def base (engine : Engine) (record : Record) : Record :=
  if engine.renew then [] else record

def removed (engine : Engine) : List String :=
  engine.removeKeys.getD []

theorem keys_assemble (engine : Engine) (record : Record) {values : List (String × Json.Value)}
    (distinct : (Assoc.keys values).Nodup) :
    Assoc.keys (engine.assemble record values) =
      (Assoc.keys (engine.base record) ++
        (Assoc.keys values).filter fun key =>
          decide (key ∉ Assoc.keys (engine.base record))).filter
        fun key => decide (key ∉ engine.removed) := by
  have assembled : engine.assemble record values =
      engine.removed.foldl Assoc.erase (Assoc.insertAll (engine.base record) values) := rfl
  rw [assembled, Assoc.keys_foldl_erase, Assoc.keys_insertAll _ distinct]

theorem get?_assemble (engine : Engine) (record : Record) {values : List (String × Json.Value)}
    (distinct : (Assoc.keys values).Nodup) (key : String) :
    Assoc.get? (engine.assemble record values) key =
      if key ∈ engine.removed then none
      else (Assoc.get? values key).or (Assoc.get? (engine.base record) key) := by
  have assembled : engine.assemble record values =
      engine.removed.foldl Assoc.erase (Assoc.insertAll (engine.base record) values) := rfl
  rw [assembled, Assoc.get?_foldl_erase, Assoc.get?_insertAll, Assoc.get?_reverse distinct]

theorem transform_of_scope_error [Host] {engine : Engine} {event : Event} {error : TemplateError}
    (failed : engine.settings.scope event = .error error) :
    (engine.transform event).outcome = .error ⟨event.tag, error⟩ := by
  simp only [transform, failed]

theorem transform_of_firstError? [Host] {engine : Engine} {event : Event} {scope : Scope}
    {error : TemplateError} (built : engine.settings.scope event = .ok scope)
    (found : firstError? (expandInTurn engine.settings scope engine.templates) = some error) :
    (engine.transform event).outcome = .error ⟨event.tag, error⟩ := by
  simp only [templates, expandInTurn] at found
  simp only [transform, built]
  cases tag : (scope.expand engine.settings engine.outputTag).outcome with
  | error tagError =>
    rw [tag] at found
    cases found
    rfl
  | ok tagValue =>
    rw [tag] at found
    have fields := (expandFields_outcome engine.settings
      (scope.expand engine.settings engine.outputTag).scope engine.fields).2 error found
    simp only [fields]

theorem transform_of_values [Host] {engine : Engine} {event : Event} {scope : Scope}
    {tagValue : Json.Value} {values : List Json.Value}
    (built : engine.settings.scope event = .ok scope)
    (expanded : expandInTurn engine.settings scope engine.templates =
      (tagValue :: values).map .ok) :
    (engine.transform event).outcome =
      .ok ⟨tagValue.asText, event.time,
        engine.assemble event.record ((Assoc.keys engine.fields).zip values)⟩ := by
  obtain ⟨tag, others⟩ := List.cons.inj expanded
  have fields := (expandFields_outcome engine.settings
    (scope.expand engine.settings engine.outputTag).scope engine.fields).1 values others
  simp only [transform, built, tag, fields]
  rfl

theorem length_expandInTurn (settings : Settings) (scope : Scope) (templates : List Template) :
    (expandInTurn settings scope templates).length = templates.length := by
  induction templates generalizing scope with
  | nil => rfl
  | cons template rest ih => simp [expandInTurn, ih]

theorem keys_zip_of_expanded {engine : Engine} {scope : Scope} {tagValue : Json.Value}
    {values : List Json.Value}
    (expanded : expandInTurn engine.settings scope engine.templates =
      (tagValue :: values).map .ok) :
    Assoc.keys ((Assoc.keys engine.fields).zip values) = Assoc.keys engine.fields := by
  have sizes := congrArg List.length expanded
  rw [length_expandInTurn] at sizes
  have enough : (Assoc.keys engine.fields).length ≤ values.length := by
    simp only [templates, Assoc.keys, List.length_cons, List.length_map] at sizes ⊢
    omega
  exact List.map_fst_zip enough

/-- Whatever happened before, an event is transformed exactly if its scope builds and every template
expands in turn. Otherwise the error is that of the scope or of the first template that fails. The
outgoing event has the time of the incoming one and the text of the output tag. Its keys are those
of the base and then the new ones of the fields, without the removed ones; a key of the fields has
its expanded value and any other key its value from before. -/
theorem transform_outcome [Host] (outputTag : String) (settings : Settings)
    (fields : List (String × String)) (removeKeys : Option RemoveKeys) (renew : Bool)
    (calls : List Call) (event : Event) :
    let engine := (build outputTag settings fields removeKeys renew).after calls
    ((∃ scope, engine.settings.scope event = .ok scope) ↔
      engine.settings.mode = .placeholder ∨ Calendar.isInRange event.time = true) ∧
    ((∃ out, (engine.transform event).outcome = .ok out) ↔
      ∃ scope, engine.settings.scope event = .ok scope ∧
        ∀ outcome ∈ expandInTurn engine.settings scope engine.templates,
          ∃ value, outcome = .ok value) ∧
    (∀ error, (engine.transform event).outcome = .error error ↔
      error.tag = event.tag ∧
        (engine.settings.scope event = .error error.cause ∨
          ∃ scope, engine.settings.scope event = .ok scope ∧
            firstError? (expandInTurn engine.settings scope engine.templates) =
              some error.cause)) ∧
    ∀ out, (engine.transform event).outcome = .ok out →
      ∃ scope tagValue values, engine.settings.scope event = .ok scope ∧
        expandInTurn engine.settings scope engine.templates = (tagValue :: values).map .ok ∧
        out.time = event.time ∧ out.tag = tagValue.asText ∧
        Assoc.keys out.record =
          (Assoc.keys (engine.base event.record) ++
            (Assoc.keys engine.fields).filter fun key =>
              decide (key ∉ Assoc.keys (engine.base event.record))).filter
            (fun key => decide (key ∉ engine.removed)) ∧
        ∀ key, Assoc.get? out.record key =
          if key ∈ engine.removed then none
          else (Assoc.get? ((Assoc.keys engine.fields).zip values) key).or
            (Assoc.get? (engine.base event.record) key) := by
  intro engine
  have distinct := nodup_keys_after outputTag settings fields removeKeys renew calls
  refine ⟨engine.settings.scope_builds_iff event, ?_⟩
  cases built : engine.settings.scope event with
  | error error =>
    rw [transform_of_scope_error built]
    refine ⟨by simp, fun other => ?_, fun out succeeded => by cases succeeded⟩
    obtain ⟨tag, cause⟩ := other
    simp [eq_comm]
  | ok scope =>
    rcases values_or_firstError? (expandInTurn engine.settings scope engine.templates) with
      ⟨values, expanded⟩ | ⟨error, found⟩
    · cases values with
      | nil => cases expanded
      | cons tagValue values =>
        have keys := keys_zip_of_expanded expanded
        rw [transform_of_values built expanded]
        refine ⟨?_, fun error => ?_, fun out succeeded => ?_⟩
        · simp [expanded]
        · have none := (firstError?_eq_none_iff _).mpr ⟨_, expanded⟩
          simp [none]
        · cases succeeded
          -- The keys of the pairs that are written in are those of the fields, hence distinct.
          rw [← keys] at distinct
          have assembledKeys := engine.keys_assemble event.record distinct
          rw [keys] at assembledKeys
          exact ⟨scope, tagValue, values, rfl, expanded, rfl, rfl, assembledKeys,
            engine.get?_assemble event.record distinct⟩
    · rw [transform_of_firstError? built found]
      refine ⟨?_, fun other => ?_, fun out succeeded => by cases succeeded⟩
      · constructor
        · rintro ⟨out, succeeded⟩
          cases succeeded
        · rintro ⟨other, equal, succeeds⟩
          cases equal
          obtain ⟨value, isValue⟩ := succeeds _ (mem_of_firstError? found)
          cases isValue
      · obtain ⟨tag, cause⟩ := other
        simp [found, eq_comm]

-- Of the assigned keys one is in the record already, one is new, and one is removed.
example :
    let engine := build "t.$\x7btag\x7d" ⟨.placeholder, "h", true⟩
      [("b", "$\x7ba\x7d"), ("x", "1"), ("c", "$\x7bb\x7d")] (some ["x"]) false
    (engine.transform ⟨"e", 5, [("a", .int 1), ("b", .int 2)]⟩).outcome =
      .ok ⟨"t.e", 5, [("a", .int 1), ("b", .int 1), ("c", .int 2)]⟩ := by
  cbv

end Engine

end Recast
