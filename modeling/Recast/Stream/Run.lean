import Recast.Engine
import Recast.Stream.Line
import Recast.Stream.Sink

set_option autoImplicit false

/-!
# Running a stream

Lines are read, processed and written one after another. A line that cannot be decoded is reported
by its number and skipped. Bytes that are no text end the run.
-/

namespace Recast.Stream

def lineBreak : UInt8 := 10

def dropReturn (line : List UInt8) : List UInt8 :=
  if line.getLast? = some 13 then line.dropLast else line

/-- The lines that end in a line break, and the bytes after the last one. `line` is in
reverse. -/
def splitFrom (line : List UInt8) : List UInt8 → List (List UInt8) × List UInt8
  | [] => ([], line.reverse)
  | byte :: rest =>
    if byte = lineBreak then
      let (lines, last) := splitFrom [] rest
      (dropReturn line.reverse :: lines, last)
    else splitFrom (byte :: line) rest

/-- The lines of an input. A last line without a line break counts once the input has ended. -/
def linesOf (ended : Bool) (bytes : List UInt8) : List (List UInt8) :=
  let (lines, last) := splitFrom [] bytes
  if ended && !last.isEmpty then lines ++ [last] else lines

inductive ReadFault where
  | invalidText
  | directory
  | device
deriving Repr, DecidableEq

def ReadFault.name : ReadFault → String
  | .invalidText => "InvalidData"
  | .directory => "IsADirectory"
  | .device => "Uncategorized"

/-- An engine that is driven, with its counters, the state of the receiver of its events, and what
has been reported. -/
structure Drive (σ : Type) where
  engine : Engine
  metrics : Metrics
  sink : σ
  notices : List Notice

variable [Host]

abbrev Pipeline (σ ε : Type) := Drive (Sink σ ε)

def Drive.process {σ : Type} (receiver : Receiver σ) (drive : Drive σ) (event : Event) : Drive σ :=
  let processing := drive.engine.process drive.metrics event
  let (sink, notices) := receiver.emitAll drive.sink processing.emitted.toList
  ⟨processing.engine, processing.metrics, sink,
    drive.notices ++ (processing.notices ++ notices)⟩

def Drive.skip {σ : Type} (drive : Drive σ) (number : Nat) : Drive σ :=
  { drive with
    metrics := { drive.metrics with invalidInput := drive.metrics.invalidInput + 1 }
    notices := drive.notices ++ [.malformedLine number] }

/-- Handles the line of a number; `clock` gives the time of a line without one. -/
def Drive.handle {σ : Type} (receiver : Receiver σ) (clock : Nat → Int) (drive : Drive σ)
    (number : Nat) (line : List Char) : Drive σ :=
  match decodeLine line with
  | .ok none => drive
  | .ok (some incoming) => drive.process receiver (incoming.toEvent (clock number))
  | .error _ => drive.skip number

/-- Handles lines from a number on until one is no text. Before each line there is a choice: where
`stops` holds, the shutdown is taken instead of the line. -/
def driveFrom {σ : Type} (receiver : Receiver σ) (clock : Nat → Int) (stops : Nat → Bool)
    (drive : Drive σ) (number : Nat) : List (List UInt8) → Drive σ × Except ReadFault Unit
  | [] => (drive, .ok ())
  | bytes :: rest =>
    if stops number then (drive, .ok ())
    else
      match Text.decodeUtf8? bytes with
      | none => (drive, .error .invalidText)
      | some line =>
        driveFrom receiver clock stops (drive.handle receiver clock number line) (number + 1) rest

def driveOver {σ : Type} (receiver : Receiver σ) (clock : Nat → Int) (stops : Nat → Bool)
    (drive : Drive σ) (ended : Bool) (bytes : List UInt8) : Drive σ × Except ReadFault Unit :=
  driveFrom receiver clock stops drive 1 (linesOf ended bytes)

/-- Runs a pipeline over an input. With a limit, the shutdown is taken after so many lines. -/
def run {σ ε : Type} (outlet : Outlet σ ε) (clock : Nat → Int) (pipeline : Pipeline σ ε)
    (ended : Bool) (limit : Option Nat) (bytes : List UInt8) :
    Pipeline σ ε × Except ReadFault Unit :=
  driveOver outlet.receiver clock (fun number => limit == some (number - 1)) pipeline ended bytes

end Recast.Stream
