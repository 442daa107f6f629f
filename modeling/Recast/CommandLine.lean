import Recast.Assoc
import Recast.Report
import Recast.Text.Search

set_option autoImplicit false

/-!
# The command line

Arguments are read from the left. A setting takes a value, either attached or as the next argument;
a switch takes none. The value of a setting is only checked once the next setting or switch is met
or the arguments end, and an argument that is not known is refused before that. A setting that is
not given takes its value from the environment, or else has a default.
-/

namespace Recast

inductive LogLevel where
  | trace
  | debug
  | info
  | warn
  | error
deriving Repr, DecidableEq

def LogLevel.name : LogLevel → String
  | .trace => "trace"
  | .debug => "debug"
  | .info => "info"
  | .warn => "warn"
  | .error => "error"

structure Options where
  config : String
  input : Option String
  hostname : Option String
  validate : Bool
  dryRun : Bool
  logLevel : LogLevel
  logJson : Bool
  outputFormat : ReportFormat
  stats : Bool
deriving Repr, DecidableEq

namespace CommandLine

/-- Why there are no options: a fault of the arguments, or a request that needs none. -/
inductive Stop where
  | unknownArgument
  | invalidValue
  | repeatedArgument
  | unexpectedValue
  | helpRequested
  | versionRequested
deriving Repr, DecidableEq

inductive Setting where
  | config
  | input
  | hostname
  | logLevel
  | logFormat
  | outputFormat
deriving Repr, DecidableEq

inductive Switch where
  | validate
  | dryRun
  | stats
  | help
  | version
deriving Repr, DecidableEq

inductive Meaning where
  | setting (setting : Setting)
  | switch (switch : Switch)
deriving Repr, DecidableEq

def longName? (name : List Char) : Option Meaning :=
  match String.ofList name with
  | "config" => some (.setting .config)
  | "input" => some (.setting .input)
  | "hostname" => some (.setting .hostname)
  | "validate" => some (.switch .validate)
  | "dry-run" => some (.switch .dryRun)
  | "log-level" => some (.setting .logLevel)
  | "log-format" => some (.setting .logFormat)
  | "output-format" => some (.setting .outputFormat)
  | "stats" => some (.switch .stats)
  | "help" => some (.switch .help)
  | "version" => some (.switch .version)
  | _ => none

def shortName? (letter : Char) : Option Meaning :=
  match letter with
  | 'c' => some (.setting .config)
  | 'i' => some (.setting .input)
  | 'l' => some (.setting .logLevel)
  | 'h' => some (.switch .help)
  | 'V' => some (.switch .version)
  | _ => none

def logLevel? (name : String) : Option LogLevel :=
  [LogLevel.trace, .debug, .info, .warn, .error].find? fun level => level.name == name

def logJson? (name : String) : Option Bool :=
  if name = "json" then some true else if name = "text" then some false else none

def reportFormat? (name : String) : Option ReportFormat :=
  [ReportFormat.text, .json, .yaml].find? fun format => format.name == name

def Setting.admits (setting : Setting) (value : String) : Bool :=
  match setting with
  | .config => !value.isEmpty
  | .input => !value.isEmpty
  | .hostname => true
  | .logLevel => (logLevel? value).isSome
  | .logFormat => (logJson? value).isSome
  | .outputFormat => (reportFormat? value).isSome

/-- What has been read. An open setting has been named, and its value may have been read but has
not been checked. -/
structure Reading where
  values : List (Setting × String)
  switches : List Switch
  pending : Option (Setting × Option String)

def Reading.start : Reading :=
  ⟨[], [], none⟩

def Reading.value? (reading : Reading) (setting : Setting) : Option String :=
  (reading.values.find? fun entry => entry.1 = setting).map Prod.snd

def Reading.set (reading : Reading) (setting : Setting) (value : String) : Except Stop Reading :=
  if (reading.value? setting).isSome then .error .repeatedArgument
  else if setting.admits value then
    .ok { reading with values := reading.values ++ [(setting, value)] }
  else .error .invalidValue

def Reading.close (reading : Reading) : Except Stop Reading :=
  match reading.pending with
  | none => .ok reading
  | some (_, none) => .error .invalidValue
  | some (setting, some value) => { reading with pending := none }.set setting value

def Reading.turnOn (reading : Reading) (switch : Switch) : Except Stop Reading := do
  let reading ← reading.close
  match switch with
  | .help => .error .helpRequested
  | .version => .error .versionRequested
  | _ =>
    if reading.switches.contains switch then .error .repeatedArgument
    else .ok { reading with switches := reading.switches ++ [switch] }

def Reading.await (reading : Reading) (setting : Setting) (attached : Option String) :
    Except Stop Reading := do
  let reading ← reading.close
  match attached with
  | some value => reading.set setting value
  | none => .ok { reading with pending := some (setting, none) }

def splitValue (text : List Char) : List Char × Option String :=
  match text.dropWhile (· != '=') with
  | [] => (text, none)
  | _ :: value => (text.takeWhile (· != '='), some (String.ofList value))

def attached? (text : List Char) : Option String :=
  match text with
  | [] => none
  | '=' :: value => some (String.ofList value)
  | value => some (String.ofList value)

def Reading.takeLong (reading : Reading) (text : List Char) : Except Stop Reading :=
  let (name, value) := splitValue text
  match longName? name with
  | none => .error .unknownArgument
  | some (.setting setting) => reading.await setting value
  | some (.switch switch) =>
    if value.isSome then .error .unexpectedValue else reading.turnOn switch

/-- Takes letters after one dash. A setting takes what is left as its value. -/
def Reading.takeLetters (reading : Reading) : List Char → Except Stop Reading
  | [] => .ok reading
  | letter :: rest =>
    match shortName? letter with
    | none => .error .unknownArgument
    | some (.setting setting) => reading.await setting (attached? rest)
    | some (.switch switch) => do
      let reading ← reading.turnOn switch
      reading.takeLetters rest

/-- Takes an argument that is no name: a value, if one is awaited. -/
def Reading.takeValue (reading : Reading) (text : List Char) : Except Stop Reading :=
  match reading.pending with
  | some (setting, none) =>
    .ok { reading with pending := some (setting, some (String.ofList text)) }
  | _ => .error .unknownArgument

/-- Takes the arguments in order. Nothing may come after two dashes alone. -/
def Reading.takeAll (reading : Reading) : List String → Except Stop Reading
  | [] => reading.close
  | argument :: rest =>
    match argument.toList with
    | ['-', '-'] => if rest.isEmpty then reading.close else .error .unknownArgument
    | '-' :: '-' :: text => do
      let reading ← reading.takeLong text
      reading.takeAll rest
    | '-' :: letter :: text => do
      let reading ← reading.takeLetters (letter :: text)
      reading.takeAll rest
    | text => do
      let reading ← reading.takeValue text
      reading.takeAll rest

def places : List (Setting × String) :=
  [(.config, "REFORMER_CONFIG"), (.input, "REFORMER_INPUT"), (.hostname, "REFORMER_HOSTNAME"),
    (.logLevel, "REFORMER_LOG_LEVEL"), (.logFormat, "REFORMER_LOG_FORMAT")]

def Reading.fill (environment : Assoc String) (reading : Reading) (place : Setting × String) :
    Except Stop Reading :=
  match reading.value? place.1, Assoc.get? environment place.2 with
  | none, some value => reading.set place.1 value
  | _, _ => .ok reading

def Reading.toOptions (reading : Reading) : Options where
  config := (reading.value? .config).getD "reformer.yaml"
  input := reading.value? .input
  hostname := reading.value? .hostname
  validate := reading.switches.contains .validate
  dryRun := reading.switches.contains .dryRun
  logLevel := ((reading.value? .logLevel).bind logLevel?).getD .info
  logJson := ((reading.value? .logFormat).bind logJson?).getD false
  outputFormat := ((reading.value? .outputFormat).bind reportFormat?).getD .text
  stats := reading.switches.contains .stats

def parse (environment : Assoc String) (arguments : List String) : Except Stop Options := do
  let reading ← Reading.start.takeAll arguments
  let reading ← places.foldlM (Reading.fill environment) reading
  .ok reading.toOptions

end CommandLine

end Recast
