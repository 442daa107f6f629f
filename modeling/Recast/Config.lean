import Recast.Engine
import Recast.Yaml.Value

set_option autoImplicit false

/-!
# Configuration

A mapping of settings. Every key that is no setting is an outgoing key with its template, and so
is every key of the block `record`, which comes after them.
-/

namespace Recast

/-- Decoded settings. The fields and the block are kept as they were written until they are
validated. -/
structure Config where
  kind : Option String
  outputTag : String
  removeKeys : Option String
  renew : Bool
  expression : Bool
  typecast : Bool
  hostname : Option String
  block : List (Yaml.Value × Yaml.Value)
  fields : List (Yaml.Value × Yaml.Value)
deriving Repr

inductive ConfigProblem where
  | missingOutputTag
  | emptyRemoveKey (list : String)
  | keyNotText (key : Yaml.Value)
  | notScalar (key : String)
deriving Repr

def ConfigProblem.message : ConfigProblem → String
  | .missingOutputTag => "Invalid configuration: output_tag is required"
  | .emptyRemoveKey list =>
    "Invalid configuration: remove_keys contains an empty key: '" ++ list ++ "'"
  | .keyNotText key => "Invalid configuration: Field key must be a string: " ++ key.inspect
  | .notScalar key =>
    "Invalid configuration: Template for field '" ++ key ++ "' must be a scalar value"

inductive ConfigError where
  | unreadable
  | malformed
  | invalid (problem : ConfigProblem)
deriving Repr

namespace Config

open Yaml (Node)

def scalar? : Node → Option String
  | .scalar _ _ text => some text
  | _ => none

/-- A text that may be missing: a plain scalar that is empty or a word for nothing is none. -/
def optionalText? : Node → Option (Option String)
  | .scalar tag style text =>
    if style = .plain && (tag.isNone || tag = some (Yaml.coreTag "null")) &&
        (text.isEmpty || Yaml.isNull text) then some none
    else some (some text)
  | _ => none

def flag? : Node → Option Bool
  | .scalar _ style text => if style = .plain then Yaml.bool? text else none
  | _ => none

/-- A block of entries; an empty scalar is an empty block. -/
def block? : Node → Option (List (Yaml.Value × Yaml.Value))
  | .mapping _ entries =>
    match (Node.mapping none entries).toValue? true with
    | some (.mapping entries) => some entries
    | _ => none
  | .scalar _ style text => if style = .plain && text.isEmpty then some [] else none
  | .sequence _ _ => none

structure Partial where
  kind : Option (Option String)
  outputTag : Option String
  removeKeys : Option (Option String)
  renew : Option Bool
  expression : Option Bool
  typecast : Option Bool
  hostname : Option (Option String)
  block : Option (List (Yaml.Value × Yaml.Value))
  fields : List (Yaml.Value × Yaml.Value)

def Partial.none : Partial :=
  ⟨.none, .none, .none, .none, .none, .none, .none, .none, []⟩

def once {α : Type} (earlier : Option α) (value : Option α) : Option (Option α) :=
  match earlier, value with
  | .none, some value => some (some value)
  | _, _ => .none

def Partial.add (settings : Partial) (key : String) (value : Node) : Option Partial :=
  if key = "type" then
    (once settings.kind (optionalText? value)).map fun kind => { settings with kind := kind }
  else if key = "output_tag" then
    (once settings.outputTag (scalar? value)).map fun tag => { settings with outputTag := tag }
  else if key = "remove_keys" then
    (once settings.removeKeys (optionalText? value)).map fun keys =>
      { settings with removeKeys := keys }
  else if key = "renew_record" then
    (once settings.renew (flag? value)).map fun renew => { settings with renew := renew }
  else if key = "enable_expression_mode" || key = "enable_ruby" then
    (once settings.expression (flag? value)).map fun flag => { settings with expression := flag }
  else if key = "auto_typecast" then
    (once settings.typecast (flag? value)).map fun flag => { settings with typecast := flag }
  else if key = "hostname" then
    (once settings.hostname (optionalText? value)).map fun name =>
      { settings with hostname := name }
  else if key = "record" then
    (once settings.block (block? value)).map fun block => { settings with block := block }
  else
    (value.toValue? false).map fun value =>
      { settings with fields := settings.fields ++ [(.text key, value)] }

def Partial.addAll (settings : Partial) : List (Node × Node) → Option Partial
  | [] => some settings
  | (key, value) :: rest =>
    match scalar? key with
    | .none => .none
    | some key =>
      match settings.add key value with
      | .none => .none
      | some settings => settings.addAll rest

def Partial.toConfig (settings : Partial) : Config where
  kind := settings.kind.getD .none
  outputTag := settings.outputTag.getD ""
  removeKeys := settings.removeKeys.getD .none
  renew := settings.renew.getD false
  expression := settings.expression.getD true
  typecast := settings.typecast.getD true
  hostname := settings.hostname.getD .none
  block := settings.block.getD []
  fields := settings.fields

/-- Decodes the documents of a text. There must be at most one; an empty one has no settings. -/
def ofDocuments? : List Node → Option Config
  | [] => some Partial.none.toConfig
  | [.scalar _ style text] =>
    if style = .plain && text.isEmpty then some Partial.none.toConfig else .none
  | [.mapping _ entries] =>
    match Partial.none.addAll entries with
    | .none => .none
    | some settings =>
      if Yaml.areDistinct (settings.fields.map Prod.fst) then some settings.toConfig else .none
  | _ => .none

/-- The outgoing keys with the sources of their templates, the block after the flat ones. -/
def pairs : List (Yaml.Value × Yaml.Value) → Except ConfigProblem (List (String × String))
  | [] => .ok []
  | (key, value) :: rest =>
    match key.text? with
    | .none => .error (.keyNotText key)
    | some name =>
      match value.scalarText? with
      | .none => .error (.notScalar name)
      | some source => (pairs rest).map fun others => (name, source) :: others

def fieldMap (config : Config) : Except ConfigProblem FieldMap :=
  (pairs (config.fields ++ config.block)).map FieldMap.ofPairs

def parsedRemoveKeys (config : Config) : Option RemoveKeys :=
  config.removeKeys.map RemoveKeys.parse

/-- The output tag must be there, no key to remove may be empty, and the fields must make a
map. -/
def validate (config : Config) : Except ConfigProblem FieldMap :=
  if Text.isAllBlank config.outputTag.toList then .error .missingOutputTag
  else if (config.parsedRemoveKeys.getD []).any String.isEmpty then
    .error (.emptyRemoveKey (config.removeKeys.getD ""))
  else config.fieldMap

def read (source : String) : Except ConfigError Config :=
  match (Yaml.documents? source.toList).bind ofDocuments? with
  | .none => .error .malformed
  | some config =>
    match config.validate with
    | .error problem => .error (.invalid problem)
    | .ok _ => .ok config

def mode (config : Config) : Mode :=
  if config.expression then .expression else .placeholder

/-- The engine of a configuration; `fallback` is the hostname unless one is configured. -/
def engine (config : Config) (fallback : String) : Except ConfigProblem Engine :=
  config.fieldMap.map fun fields =>
    .ofSpec
      { outputTag := config.outputTag
        settings := ⟨config.mode, config.hostname.getD fallback, config.typecast⟩
        fields := fields
        removeKeys := config.parsedRemoveKeys
        renew := config.renew }

end Config

inductive PreparationError where
  | config (problem : ConfigProblem)
  | template (error : TemplateError)
deriving Repr

def Config.prepare (config : Config) (fallback : String) : Except PreparationError Engine :=
  match config.engine fallback with
  | .error problem => .error (.config problem)
  | .ok engine =>
    match engine.compileAll with
    | (.error error, _) => .error (.template error)
    | (.ok _, engine) => .ok engine

end Recast
