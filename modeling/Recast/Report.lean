import Recast.Config
import Recast.Json.Printer
import Recast.Yaml.Writer

set_option autoImplicit false

/-!
# Reports

What is reported about a configuration instead of processing events: that it is valid, or what an
engine has been given. A report is plain text, indented JSON or YAML.
-/

namespace Recast

inductive Finding where
  | nothing
  | flag (holds : Bool)
  | count (number : Nat)
  | text (content : String)
  | list (items : List String)
  | table (entries : List (String × String))
deriving Repr, DecidableEq

abbrev Report := List (String × Finding)

inductive ReportFormat where
  | text
  | json
  | yaml
deriving Repr, DecidableEq

def ReportFormat.name : ReportFormat → String
  | .text => "text"
  | .json => "json"
  | .yaml => "yaml"

namespace Finding

def flagText (holds : Bool) : String :=
  if holds then "true" else "false"

def toJson : Finding → Json.Value
  | .nothing => .null
  | .flag holds => .bool holds
  | .count number => .int (Int.ofNat number)
  | .text content => .text content
  | .list items => .array (items.map .text)
  | .table entries => .object (Assoc.mapValues .text entries)

def toYaml : Finding → List Char
  | .nothing => " null\n".toList
  | .flag holds => ' ' :: (flagText holds).toList ++ ['\n']
  | .count number => ' ' :: Decimal.natText number ++ ['\n']
  | .text content => ' ' :: Yaml.endLine (Yaml.writeText 2 content.toList)
  | .list [] => " []\n".toList
  | .list items => '\n' :: items.flatMap fun item => Yaml.writeItem item.toList
  | .table [] => " \x7b\x7d\n".toList
  | .table entries =>
    '\n' :: entries.flatMap fun entry => Yaml.writeEntry 2 entry.1.toList entry.2.toList

def toPlain : Finding → String
  | .nothing => " (none)\n"
  | .flag holds => " " ++ flagText holds ++ "\n"
  | .count number => " " ++ String.ofList (Decimal.natText number) ++ "\n"
  | .text content => " " ++ content ++ "\n"
  | .list items => " " ++ String.intercalate "," items ++ "\n"
  | .table entries =>
    "\n" ++ String.join (entries.map fun entry => "  " ++ entry.1 ++ " = " ++ entry.2 ++ "\n")

end Finding

namespace Report

def renderJson (report : Report) : String :=
  (Json.Value.object (Assoc.mapValues Finding.toJson report)).renderIndented ++ "\n"

def renderYaml (report : Report) : String :=
  String.ofList (report.flatMap fun entry => entry.1.toList ++ ':' :: entry.2.toYaml)

def renderText (indent : String) (report : Report) : String :=
  String.join (report.map fun entry => indent ++ entry.1 ++ ":" ++ entry.2.toPlain)

end Report

def Engine.validation (engine : Engine) : ReportFormat → String
  | .text =>
    "Configuration is valid\n" ++
      Report.renderText "  "
        [("mode", .text engine.settings.mode.name), ("output_tag", .text engine.outputTag.source),
          ("fields", .count engine.fields.length)]
  | .json => Report.renderJson summary
  | .yaml => Report.renderYaml summary
where
  summary : Report :=
    [("valid", .flag true), ("mode", .text engine.settings.mode.name),
      ("fields", .count engine.fields.length)]

def Engine.findings (engine : Engine) : Report :=
  [("output_tag", .text engine.outputTag.source), ("mode", .text engine.settings.mode.name),
    ("renew_record", .flag engine.renew),
    ("remove_keys", engine.removeKeys.elim .nothing .list),
    ("hostname", .text engine.settings.hostname), ("fields", .table engine.fields.sources)]

def Engine.description (engine : Engine) : ReportFormat → String
  | .text => Report.renderText "" engine.findings
  | .json => Report.renderJson engine.findings
  | .yaml => Report.renderYaml engine.findings

end Recast
