import Recast.Expansion
import Recast.Fields
import Recast.Metrics

set_option autoImplicit false

/-!
# The engine

An engine gives every event a new tag and a new record. The templates are expanded one after
another in the scope of the original event, the output tag first.
-/

namespace Recast

/-- An engine: its settings and its templates. -/
structure Engine where
  settings : Settings
  outputTag : Template
  fields : FieldMap
  removeKeys : Option RemoveKeys
  renew : Bool

structure EngineSpec where
  outputTag : String
  settings : Settings
  fields : FieldMap
  removeKeys : Option RemoveKeys
  renew : Bool

namespace EngineSpec

/-- Adds one outgoing key to those that there are. -/
def withField (spec : EngineSpec) (key source : String) : EngineSpec :=
  { spec with fields := spec.fields.insert key source }

/-- Replaces all outgoing keys. -/
def withFields (spec : EngineSpec) (fields : FieldMap) : EngineSpec :=
  { spec with fields := fields }

end EngineSpec

def Engine.ofSpec (spec : EngineSpec) : Engine :=
  ⟨spec.settings, .ofSource spec.outputTag, spec.fields, spec.removeKeys, spec.renew⟩

structure EventError where
  tag : String
  cause : TemplateError
deriving Repr, DecidableEq

def EventError.message (error : EventError) : String :=
  "Failed to reform event with tag '" ++ error.tag ++ "': " ++ error.cause.message

/-- Expanded fields, or the error of the first template that failed. The templates are given back
with what is now known of them. -/
structure FieldExpansion where
  outcome : Except TemplateError (List (String × Json.Value))
  fields : FieldMap
  unknown : List String
  printed : List String

def expandFields (settings : Settings) (scope : Scope) : FieldMap → FieldExpansion
  | [] => ⟨.ok [], [], [], []⟩
  | (key, template) :: rest =>
    let expansion := scope.expand settings template
    match expansion.outcome with
    | .error error =>
      ⟨.error error, (key, expansion.template) :: rest, expansion.unknown,
        expansion.effects.printed⟩
    | .ok value =>
      let others := expandFields settings expansion.scope rest
      ⟨others.outcome.map ((key, value) :: ·), (key, expansion.template) :: others.fields,
        expansion.unknown ++ others.unknown, expansion.effects.printed ++ others.printed⟩

namespace Engine

/-- The outgoing record: the base with the fields written into it and the removed keys deleted. -/
def assemble (engine : Engine) (record : Record) (values : List (String × Json.Value)) : Record :=
  let base := if engine.renew then [] else record
  RemoveKeys.apply (engine.removeKeys.getD []) (Assoc.insertAll base values)

/-- The outcome of transforming an event: the outgoing event or an error, the engine with what is
now known of its templates, the placeholders that were not found, and the lines that expressions
printed. -/
structure Transformation where
  outcome : Except EventError Event
  engine : Engine
  unknown : List String
  printed : List String

variable [Host]

def transform (engine : Engine) (event : Event) : Transformation :=
  match engine.settings.scope event with
  | .error error => ⟨.error ⟨event.tag, error⟩, engine, [], []⟩
  | .ok scope =>
    let tag := scope.expand engine.settings engine.outputTag
    let engine := { engine with outputTag := tag.template }
    match tag.outcome with
    | .error error => ⟨.error ⟨event.tag, error⟩, engine, tag.unknown, tag.effects.printed⟩
    | .ok tagValue =>
      let fields := expandFields engine.settings tag.scope engine.fields
      let engine := { engine with fields := fields.fields }
      let unknown := tag.unknown ++ fields.unknown
      let printed := tag.effects.printed ++ fields.printed
      match fields.outcome with
      | .error error => ⟨.error ⟨event.tag, error⟩, engine, unknown, printed⟩
      | .ok values =>
        ⟨.ok ⟨tagValue.asText, event.time, engine.assemble event.record values⟩, engine, unknown,
          printed⟩

def compileFields (settings : Settings) : FieldMap → Except TemplateError Unit × FieldMap
  | [] => (.ok (), [])
  | (key, template) :: rest =>
    match settings.compile template with
    | (.error error, template) => (.error error, (key, template) :: rest)
    | (.ok _, template) =>
      let (outcome, others) := compileFields settings rest
      (outcome, (key, template) :: others)

def compileAll (engine : Engine) : Except TemplateError Unit × Engine :=
  match engine.settings.compile engine.outputTag with
  | (.error error, template) => (.error error, { engine with outputTag := template })
  | (.ok _, template) =>
    let (outcome, fields) := compileFields engine.settings engine.fields
    (outcome, { engine with outputTag := template, fields := fields })

structure Processing where
  emitted : Option Event
  engine : Engine
  metrics : Metrics
  notices : List Notice

def unknownNotices (event : Event) (unknown : List String) : List Notice :=
  unknown.map fun token => .unknownPlaceholder token event.tag

def countUnknown (unknown : List String) (metrics : Metrics) : Metrics :=
  { metrics with unknownPlaceholders := metrics.unknownPlaceholders + unknown.length }

/-- Transforms an event and counts it. An event that fails is dropped. -/
def process (engine : Engine) (metrics : Metrics) (event : Event) : Processing :=
  let transformation := engine.transform event
  let received := { metrics with received := metrics.received + 1 }
  let counted := countUnknown transformation.unknown received
  let notices := unknownNotices event transformation.unknown
  match transformation.outcome with
  | .ok reformed =>
    ⟨some reformed, transformation.engine, { counted with emitted := counted.emitted + 1 }, notices⟩
  | .error error =>
    ⟨none, transformation.engine, { counted with dropped := counted.dropped + 1 },
      notices ++ [.droppedEvent error.cause.kind error.tag]⟩

/-- The outcome of processing several events. `count` is the number of those that came through. -/
structure Batch where
  emitted : List Event
  count : Nat
  engine : Engine
  metrics : Metrics
  notices : List Notice

def processAll (engine : Engine) (metrics : Metrics) : List Event → Batch
  | [] => ⟨[], 0, engine, metrics, []⟩
  | event :: rest =>
    let first := engine.process metrics event
    let others := processAll first.engine first.metrics rest
    ⟨first.emitted.toList ++ others.emitted,
      if first.emitted.isSome then others.count + 1 else others.count, others.engine,
      others.metrics, first.notices ++ others.notices⟩

end Engine

end Recast
