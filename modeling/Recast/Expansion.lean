import Recast.Placeholder
import Recast.Template.Basic

set_option autoImplicit false

/-!
# Expanding templates

A template is expanded in the scope of one event, either by looking up its placeholders or by
evaluating its expressions. Expressions may ask the machine that they are evaluated on.
-/

namespace Recast

inductive Mode where
  | placeholder
  | expression
deriving Repr, DecidableEq

def Mode.name : Mode → String
  | .placeholder => "placeholder"
  | .expression => "expression"

/-- How an engine expands. With `typecast` a template that is one placeholder or one hole keeps
the kind of its value. -/
structure Settings where
  mode : Mode
  hostname : String
  typecast : Bool
deriving Repr, DecidableEq

/-- The machine that expressions are evaluated on: what it answers to the templates of an event, by
their order in the scope of the event. -/
class Host where
  answers : Event → Nat → Script.Answers

/-- A machine whose clock stands still. -/
instance (priority := low) Host.still : Host where
  answers _ _ := .still

/-- The scope of an event. Beside its bindings stands what the machine answers to the templates
that are still to be expanded. -/
inductive Scope where
  | placeholders (table : Placeholder.Table)
  | bindings (bindings : Script.Bindings) (answers : Nat → Script.Answers)

/-- The outcome of expanding a template: its value, the template and the scope afterwards, the
placeholders that were not found, in order, and what its evaluation did besides. -/
structure Expansion where
  outcome : Except TemplateError Json.Value
  template : Template
  scope : Scope
  unknown : List String
  effects : Script.Effects

def isBindable (name : String) : Bool :=
  match name.toList with
  | [] => false
  | first :: rest =>
    (first.isAlpha || first == '_') && rest.all fun char => char.isAlphanum || char == '_'

def bindableFields (record : Record) : Record :=
  record.filter fun field => isBindable field.1

/-- The bindings of an event, the innermost first: its fields shadow the reserved names. -/
def eventBindings (event : Event) (hostname : String) : Script.Bindings :=
  let parts := Script.Value.array ((Tag.parts event.tag).map .text)
  let fields := (bindableFields event.record).map fun field =>
    Script.Binding.fixed field.1 (Script.Value.ofJson field.2)
  fields.reverse ++
    [.fixed "hostname" (.text hostname), .fixed "time" (.time event.time),
      .fixed "tag_parts" parts, .fixed "tags" parts, .fixed "tag" (.text event.tag)]

/-- The scope of an event. Expressions need a time within the calendar. -/
def Settings.scope [Host] (settings : Settings) (event : Event) : Except TemplateError Scope :=
  match settings.mode with
  | .placeholder => .ok (.placeholders (Placeholder.Table.build event settings.hostname))
  | .expression =>
    if Calendar.isInRange event.time then
      .ok (.bindings (eventBindings event settings.hostname) (Host.answers event))
    else
      .error (.evaluation (Placeholder.token "time") (.timeOutOfRange event.time))

def pieceText (table : Placeholder.Table) : Template.Piece → String × List String
  | .literal text => (text, [])
  | .placeholder token =>
    match Assoc.get? table token with
    | some value => (value.asText, [])
    | none => ("", [token])

/-- The value of pieces: that of a single placeholder as it is, otherwise a text. -/
def expandPieces (typecast : Bool) (table : Placeholder.Table) (pieces : List Template.Piece) :
    Json.Value × List String :=
  match if typecast then Template.single? pieces else none with
  | some token =>
    match Assoc.get? table token with
    | some value => (value, [])
    | none => (.null, [token])
  | none =>
    let texts := pieces.map (pieceText table)
    (.text (String.join (texts.map Prod.fst)), (texts.map Prod.snd).flatten)

def Scope.expand (settings : Settings) (template : Template) (scope : Scope) : Expansion :=
  match scope with
  | .placeholders table =>
    let (pieces, template) := template.withPieces
    let (value, unknown) := expandPieces settings.typecast table pieces
    ⟨.ok value, template, scope, unknown, .none⟩
  | .bindings known answers =>
    let later := fun number => answers (number + 1)
    match template.withScript settings.typecast with
    | (.error error, template) => ⟨.error error, template, .bindings known later, [], .none⟩
    | (.ok script, template) =>
      let (outcome, memory) := script.run (answers 0) known
      let outcome := outcome.mapError fun fault => .evaluation template.source (.script fault)
      ⟨outcome.map Script.Value.toJson, template, .bindings memory.bindings later, [],
        memory.effects⟩

def Settings.compile (settings : Settings) (template : Template) :
    Except TemplateError Unit × Template :=
  match settings.mode with
  | .placeholder => (.ok (), template.withPieces.2)
  | .expression =>
    match template.withScript settings.typecast with
    | (.ok _, template) => (.ok (), template)
    | (.error error, template) => (.error error, template)

end Recast
