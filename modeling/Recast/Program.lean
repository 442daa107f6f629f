import Recast.CommandLine
import Recast.Stream.Buffer
import Recast.Stream.Run

set_option autoImplicit false

/-!
# The program

From arguments, environment, files and input to what is printed and with which code the program
ends. A configuration can be validated or described instead of processing events; validation comes
first if both are asked for.
-/

namespace Recast.Program

/-- What can be read: bytes, bytes after which reading fails, or nothing at all. -/
inductive Source where
  | bytes (content : List UInt8)
  | broken (content : List UInt8)
  | directory
deriving Repr

def Source.content : Source → List UInt8
  | .bytes content => content
  | .broken content => content
  | .directory => []

/-- How reading ends after the bytes, unless it comes to their end. -/
def Source.fault? : Source → Option Stream.ReadFault
  | .bytes _ => none
  | .broken _ => some .device
  | .directory => some .directory

/-- What the program finds around it. `systemName` is the text of the file with the name of the
machine, and `machine` is what answers the templates, by the number of the line that they are
expanded for. Reading standard input may fail after its bytes. -/
structure Surroundings where
  environment : Assoc String
  file? : String → Option Source
  standardInput : List UInt8
  systemName : Option String
  inputBreaks : Bool := false
  machine : Nat → Host := fun _ => .still

inductive Failure where
  | arguments (stop : CommandLine.Stop)
  | loading (path : String) (error : ConfigError)
  | config (problem : ConfigProblem)
  | template (error : TemplateError)
  | opening (path : String)
  | reading (fault : Stream.ReadFault)
  | writing
deriving Repr

def Failure.message : Failure → String
  | .arguments _ => "Invalid arguments"
  | .loading path _ => "Failed to load " ++ path
  | .config problem => "Configuration error: " ++ problem.message
  | .template error => "Template error: " ++ error.message
  | .opening path => "Failed to open input " ++ path
  | .reading fault => "I/O error: " ++ fault.name
  | .writing => "Failed to write output"

def Failure.code : Failure → Nat
  | .arguments _ => 2
  | _ => 1

def versionText : String := "record-reformer 0.1.0\n"

def helpText : String :=
  "Reads NDJSON events, rewrites their tag and record from the configured\n" ++
    "templates and writes the result as NDJSON to stdout.\n\n" ++
    "Usage: record-reformer [OPTIONS]\n\nOptions:\n" ++
    "  -c, --config <FILE>            Configuration file [default: reformer.yaml]\n" ++
    "  -i, --input <FILE>             NDJSON input file (stdin when omitted)\n" ++
    "      --hostname <NAME>          Hostname exposed to templates\n" ++
    "      --validate                 Validate configuration and templates, then exit\n" ++
    "      --dry-run                  Show the parsed configuration, then exit\n" ++
    "  -l, --log-level <LEVEL>        trace, debug, info, warn or error [default: info]\n" ++
    "      --log-format <FORMAT>      text or json [default: text]\n" ++
    "      --output-format <FORMAT>   text, json or yaml [default: text]\n" ++
    "      --stats                    Print pipeline counters to stderr on exit\n" ++
    "  -h, --help                     Print help\n" ++
    "  -V, --version                  Print version\n"

/-- The name of the machine: that of the environment unless it is blank, else that of the
system. -/
def machineName (environment : Assoc String) (systemName : Option String) : String :=
  match (Assoc.get? environment "HOSTNAME").filter fun name => !Text.isAllBlank name.toList with
  | some name => name
  | none =>
    let trimmed := systemName.map fun name => String.ofList (Text.trim name.toList)
    (trimmed.filter fun name => !name.isEmpty).getD "localhost"

/-- Reads the configuration of the options. The hostname of the options replaces that of the
file. -/
def loadConfig (options : Options) (source : Option Source) : Except Failure Config :=
  let content :=
    match source with
    | some (.bytes bytes) => Text.decodeUtf8? bytes
    | _ => none
  match content with
  | none => .error (.loading options.config .unreadable)
  | some text =>
    match Config.read (String.ofList text) with
    | .error error => .error (.loading options.config error)
    | .ok config => .ok { config with hostname := options.hostname <|> config.hostname }

/-- What is to be done: print a text, or process events. -/
inductive Plan where
  | print (text : String)
  | process (engine : Engine)

def planFor (options : Options) (config : Config) (hostname : String) : Except Failure Plan :=
  if options.validate then
    match config.prepare hostname with
    | .ok engine => .ok (.print (engine.validation options.outputFormat))
    | .error (.config problem) => .error (.config problem)
    | .error (.template error) => .error (.template error)
  else
    match config.engine hostname with
    | .error problem => .error (.config problem)
    | .ok engine =>
      if options.dryRun then .ok (.print (engine.description options.outputFormat))
      else .ok (.process engine)

def plan (options : Options) (environment : Assoc String) (systemName : Option String)
    (source : Option Source) : Except Failure Plan := do
  let config ← loadConfig options source
  planFor options config (machineName environment systemName)

/-- How the program has ended: its code, what has been printed to its output, by itself or by the
expressions of templates, and the counters if they have been asked for and nothing has failed. -/
structure Outcome where
  code : Nat
  output : List UInt8
  summary : Option String
  failure : Option Failure

def Outcome.failed (output : List UInt8) (failure : Failure) : Outcome :=
  ⟨failure.code, output, none, some failure⟩

def Outcome.printed (text : String) : Outcome :=
  ⟨0, Text.encodeUtf8 text.toList, none, none⟩

def freshPipeline (engine : Engine) : Stream.Pipeline Stream.Buffer Stream.Refusal :=
  ⟨engine, .zero, ⟨.empty, none⟩, []⟩

/-- The lines that the expressions of templates print while a line of the input is handled. -/
def printedFor [Host] (engine : Engine) (clock : Nat → Int) (number : Nat) (line : List Char) :
    List String :=
  match Stream.decodeLine line with
  | .ok (some incoming) => (engine.transform (incoming.toEvent (clock number))).printed
  | _ => []

/-- Handles a line. What expressions print goes out at once; the event waits in the buffer. -/
def handleLine [Host] (clock : Nat → Int)
    (pipeline : Stream.Pipeline Stream.Buffer Stream.Refusal) (number : Nat) (line : List Char) :
    Stream.Pipeline Stream.Buffer Stream.Refusal :=
  let printed := printedFor pipeline.engine clock number line
  let sink := { pipeline.sink with state := pipeline.sink.state.printLines printed }
  Stream.Drive.handle Stream.Buffer.outlet.receiver clock { pipeline with sink := sink } number line

/-- Handles lines from a number on until one is no text. -/
def handleLines (machine : Nat → Host) (clock : Nat → Int)
    (pipeline : Stream.Pipeline Stream.Buffer Stream.Refusal) (number : Nat) :
    List (List UInt8) → Stream.Pipeline Stream.Buffer Stream.Refusal × Except Stream.ReadFault Unit
  | [] => (pipeline, .ok ())
  | bytes :: rest =>
    match Text.decodeUtf8? bytes with
    | none => (pipeline, .error .invalidText)
    | some line =>
      let pipeline := @handleLine (machine number) clock pipeline number line
      handleLines machine clock pipeline (number + 1) rest

/-- Reads a source to its end. If that fails, the output is not finished, and its buffer is given
up with what it holds. -/
def process (options : Options) (engine : Engine) (machine : Nat → Host) (clock : Nat → Int)
    (source : Source) : Outcome :=
  let (pipeline, outcome) := handleLines machine clock (freshPipeline engine) 1
    (Stream.linesOf source.fault?.isNone source.content)
  match outcome, source.fault? with
  | .error fault, _ => .failed pipeline.sink.state.givenUp (.reading fault)
  | .ok _, some fault => .failed pipeline.sink.state.givenUp (.reading fault)
  | .ok _, none =>
    match pipeline.sink.finish Stream.Buffer.outlet with
    | .error _ => .failed pipeline.sink.state.givenUp .writing
    | .ok buffer =>
      let summary := if options.stats then some pipeline.metrics.summary else none
      ⟨0, buffer.givenUp, summary, none⟩

def inputSource (options : Options) (surroundings : Surroundings) : Except Failure Source :=
  match options.input with
  | none =>
    .ok (if surroundings.inputBreaks then .broken surroundings.standardInput
      else .bytes surroundings.standardInput)
  | some path =>
    match surroundings.file? path with
    | some source => .ok source
    | none => .error (.opening path)

def carryOut (options : Options) (surroundings : Surroundings) (clock : Nat → Int) :
    Plan → Outcome
  | .print text => .printed text
  | .process engine =>
    match inputSource options surroundings with
    | .error failure => .failed [] failure
    | .ok source => process options engine surroundings.machine clock source

def run (arguments : List String) (surroundings : Surroundings) (clock : Nat → Int) : Outcome :=
  match CommandLine.parse surroundings.environment arguments with
  | .error .helpRequested => .printed helpText
  | .error .versionRequested => .printed versionText
  | .error stop => .failed [] (.arguments stop)
  | .ok options =>
    let source := surroundings.file? options.config
    match plan options surroundings.environment surroundings.systemName source with
    | .error failure => .failed [] failure
    | .ok plan => carryOut options surroundings clock plan

end Recast.Program
