import Recast.Program
import Std.Time.DateTime.Timestamp

set_option autoImplicit false

/-!
# The executable

Reads arguments, environment and files, hands the work to the program, and prints what it gives.
Events are processed line by line, as they come in, and printed as they go out of the buffer.
-/

namespace Recast.Main

def variableNames : List String :=
  "HOSTNAME" :: CommandLine.places.map Prod.snd

def readVariables : IO (Assoc String) := do
  let values ← variableNames.mapM fun name => do
    let value ← IO.getEnv name
    return (name, value)
  return values.filterMap fun (name, value?) => value?.map (name, ·)

def readSource (path : String) : IO (Option Program.Source) := do
  try
    let content ← IO.FS.readBinFile path
    return some (.bytes content.toList)
  catch _ => return none

def readText (path : String) : IO (Option String) := do
  try return some (← IO.FS.readFile path)
  catch _ => return none

def clockSeconds : IO Int := do
  let now ← Std.Time.Timestamp.now
  return now.toSecondsSinceUnixEpoch.val

def noticeLine : Notice → Bool × String
  | .unknownPlaceholder token tag =>
    (false, "unknown placeholder found in a tag placeholder=" ++ token ++ " tag=" ++ tag)
  | .droppedEvent kind tag => (false, "Dropping event error.kind=" ++ kind ++ " tag=" ++ tag)
  | .malformedLine number => (false, "Skipping malformed input line line=" ++ toString number)
  | .failedWrite tag => (true, "Failed to write event tag=" ++ tag)

def report (options : Options) (notice : Notice) : IO Unit := do
  let (isError, text) := noticeLine notice
  if isError then IO.eprintln ("ERROR " ++ text)
  else if options.logLevel != .error then IO.eprintln ("WARN " ++ text)

/-- The machine of the executable. Its clock has been read before the line that it answers for. -/
@[reducible] def machineAt (nanoseconds : Nat) : Host where
  answers _ _ := { Script.Answers.still with reading := fun _ => Int.ofNat nanoseconds }

abbrev Pipeline := Stream.Pipeline Stream.Buffer Stream.Refusal

/-- Prints what has gone out of the buffer. A failure is kept, and nothing is printed after it. -/
def printOut (output : IO.FS.Stream) (pipeline : Pipeline) : IO Pipeline := do
  if pipeline.sink.failure.isSome then return pipeline
  let buffer := pipeline.sink.state
  try
    output.write ⟨buffer.out.reverse.toArray⟩
    output.flush
    return { pipeline with sink := ⟨{ buffer with out := [] }, none⟩ }
  catch _ => return { pipeline with sink := ⟨buffer, some .brokenPipe⟩ }

def readFault : IO.Error → Stream.ReadFault
  | .inappropriateType .. => .directory
  | _ => .device

/-- The bytes up to the next line break, and with it. There are none at the end of the input. -/
partial def readLine (input : IO.FS.Stream) (line : List UInt8) : IO (List UInt8) := do
  match (← input.read 1).toList with
  | [] => return line.reverse
  | byte :: _ =>
    if byte = Stream.lineBreak then return (byte :: line).reverse
    else readLine input (byte :: line)

/-- The tag of the event that a line gives, if it gives one. -/
def emittedTag? [Host] (engine : Engine) (now : Int) (bytes : List UInt8) : Option String := do
  let line ← Text.decodeUtf8? bytes
  let incoming ← (Stream.decodeLine line).toOption.join
  let event ← (engine.transform (incoming.toEvent now)).outcome.toOption
  return event.tag

/-- Handles lines until the input ends or cannot be read. After a failed write lines are still read
and counted. -/
partial def pump (options : Options) (input output : IO.FS.Stream) (pipeline : Pipeline)
    (number : Nat) : IO (Pipeline × Except Stream.ReadFault Unit) := do
  match ← (readLine input []).toBaseIO with
  | .error error => return (pipeline, .error (readFault error))
  | .ok [] => return (pipeline, .ok ())
  | .ok bytes =>
    let now ← clockSeconds
    let machine := machineAt (← IO.monoNanosNow)
    let (handled, outcome) := Program.handleLines (fun _ => machine) (fun _ => now) pipeline number
      (Stream.linesOf true bytes)
    for notice in handled.notices do report options notice
    let printed ← printOut output { handled with notices := [] }
    if handled.sink.failure.isNone && printed.sink.failure.isSome then
      let tag? := @emittedTag? machine pipeline.engine now bytes
      report options (.failedWrite (tag?.getD ""))
    match outcome with
    | .error fault => return (printed, .error fault)
    | .ok _ => pump options input output printed (number + 1)

def fail (failure : Program.Failure) : IO UInt32 := do
  IO.eprintln ("Error: " ++ failure.message)
  return failure.code.toUInt32

/-- Ends the output. After a failed read the buffer is given up with what it holds. -/
def finish (options : Options) (output : IO.FS.Stream) (pipeline : Pipeline)
    (outcome : Except Stream.ReadFault Unit) : IO UInt32 := do
  let drained := { pipeline.sink with state := pipeline.sink.state.drain }
  let printed ← printOut output { pipeline with sink := drained }
  match outcome, printed.sink.finish Stream.Buffer.outlet with
  | .error fault, _ => fail (.reading fault)
  | .ok _, .error _ => fail .writing
  | .ok _, .ok _ =>
    if options.stats then IO.eprintln printed.metrics.summary
    return 0

def process (options : Options) (engine : Engine) : IO UInt32 := do
  let input? ← match options.input with
    | none => some <$> IO.getStdin
    | some path =>
      try pure (some (IO.FS.Stream.ofHandle (← IO.FS.Handle.mk path .read)))
      catch _ => pure none
  match input? with
  | none => fail (.opening (options.input.getD ""))
  | some input =>
    let output ← IO.getStdout
    let (pipeline, outcome) ← pump options input output (Program.freshPipeline engine) 1
    finish options output pipeline outcome

def carryOut (options : Options) (environment : Assoc String) : IO UInt32 := do
  let source ← readSource options.config
  let systemName ← readText "/etc/hostname"
  match Program.plan options environment systemName source with
  | .error failure => fail failure
  | .ok (.print text) => do
    IO.print text
    return 0
  | .ok (.process engine) => process options engine

def run (arguments : List String) : IO UInt32 := do
  let environment ← readVariables
  match CommandLine.parse environment arguments with
  | .error .helpRequested => do
    IO.print Program.helpText
    return 0
  | .error .versionRequested => do
    IO.print Program.versionText
    return 0
  | .error stop => fail (.arguments stop)
  | .ok options => carryOut options environment

end Recast.Main

def main (arguments : List String) : IO UInt32 :=
  Recast.Main.run arguments
