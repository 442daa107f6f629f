import Mathlib
import Recast.Program
import Recast.Proofs.CompilingAhead
import Recast.Proofs.WrittenEvents

set_option autoImplicit false

/-!
# What the program prints

Unless the program only validates or describes its configuration, it prints the lines of the events
that come through, and its counters are those of the same events. Templates may print as well: their
lines overtake what still waits in the buffer. If reading fails, the lines before the failure have
been handled, and what they gave goes out when the buffer is given up.
-/

namespace Recast

/-! ## Two outputs in one -/

/-- The whole is made of two lists, each of them in order. -/
inductive Interleaves {α : Type} : List α → List α → List α → Prop where
  | nil : Interleaves [] [] []
  | first {item : α} {left right whole : List α} (rest : Interleaves left right whole) :
      Interleaves (item :: left) right (item :: whole)
  | second {item : α} {left right whole : List α} (rest : Interleaves left right whole) :
      Interleaves left (item :: right) (item :: whole)

namespace Interleaves

variable {α : Type} {left right whole : List α}

theorem only_first (list : List α) : Interleaves list [] list := by
  induction list with
  | nil => exact .nil
  | cons item rest ih => exact .first ih

theorem only_second (list : List α) : Interleaves [] list list := by
  induction list with
  | nil => exact .nil
  | cons item rest ih => exact .second ih

theorem append {more others all : List α} (front : Interleaves left right whole)
    (back : Interleaves more others all) :
    Interleaves (left ++ more) (right ++ others) (whole ++ all) := by
  induction front with
  | nil => exact back
  | first _ ih => exact .first ih
  | second _ ih => exact .second ih

theorem count_eq [DecidableEq α] (interleaves : Interleaves left right whole) (item : α) :
    whole.count item = left.count item + right.count item := by
  induction interleaves with
  | nil => rfl
  | first _ ih => rw [List.count_cons, List.count_cons, ih, Nat.add_right_comm]
  | second _ ih => rw [List.count_cons, List.count_cons, ih, Nat.add_assoc]

theorem length_eq (interleaves : Interleaves left right whole) :
    whole.length = left.length + right.length := by
  induction interleaves with
  | nil => rfl
  | first _ ih => rw [List.length_cons, List.length_cons, ih, Nat.add_right_comm]
  | second _ ih => rw [List.length_cons, List.length_cons, ih, Nat.add_assoc]

/-- The whole is one of the lists only if there is nothing in the other. -/
theorem eq_second_iff (interleaves : Interleaves left right whole) : whole = right ↔ left = [] := by
  constructor
  · rintro rfl
    have lengths := interleaves.length_eq
    exact List.eq_nil_of_length_eq_zero (by omega)
  · intro none
    induction interleaves with
    | nil => rfl
    | first _ _ => cases none
    | second _ ih => rw [ih none]

end Interleaves

/-! ## The buffer -/

namespace Stream

theorem printedBytes_append (lines others : List String) :
    printedBytes (lines ++ others) = printedBytes lines ++ printedBytes others :=
  List.flatMap_append

/-- Each printed line has a line break of its own. -/
theorem length_le_count_printedBytes (lines : List String) :
    lines.length ≤ (printedBytes lines).count lineBreak := by
  induction lines with
  | nil => exact Nat.le_refl 0
  | cons line rest ih =>
    have ended : 1 ≤ (Text.encodeUtf8 (line.toList ++ ['\n'])).count lineBreak := by
      rw [Text.encodeUtf8_append, List.count_append]
      exact Nat.le_add_left _ _
    have whole : printedBytes (line :: rest) =
        Text.encodeUtf8 (line.toList ++ ['\n']) ++ printedBytes rest := rfl
    rw [whole, List.count_append, List.length_cons]
    omega

theorem printedBytes_eq_nil_iff {lines : List String} : printedBytes lines = [] ↔ lines = [] := by
  constructor
  · intro nothing
    have short := length_le_count_printedBytes lines
    rw [nothing] at short
    exact List.eq_nil_of_length_eq_zero (Nat.le_zero.mp short)
  · rintro rfl
    rfl

namespace Buffer

variable {printed written : List UInt8} {buffer : Buffer}

/-- What has been printed has gone out, and what has been written has gone out or waits. -/
def Carries (printed written : List UInt8) (buffer : Buffer) : Prop :=
  ∃ sent, Interleaves printed sent buffer.out.reverse ∧ sent ++ buffer.waiting.reverse = written

theorem carries_empty : Carries [] [] .empty :=
  ⟨[], .nil, rfl⟩

theorem Carries.drain (carries : Carries printed written buffer) :
    Carries printed written buffer.drain := by
  obtain ⟨sent, gone, rfl⟩ := carries
  refine ⟨sent ++ buffer.waiting.reverse, ?_, List.append_nil _⟩
  have together := gone.append (.only_second buffer.waiting.reverse)
  rw [List.append_nil] at together
  rw [Buffer.drain, List.reverse_append]
  exact together

theorem Carries.givenUp (carries : Carries printed written buffer) :
    Interleaves printed written buffer.givenUp := by
  obtain ⟨sent, gone, all⟩ := carries.drain
  obtain rfl : sent = written := (List.append_nil sent).symm.trans all
  exact gone

/-- No byte is lost, whether it waits or makes those before it go out. -/
theorem Carries.push (carries : Carries printed written buffer) (byte : UInt8) :
    Carries printed (written ++ [byte]) (buffer.push byte) := by
  have drained := carries.drain
  obtain ⟨sent, gone, rfl⟩ := carries
  unfold Buffer.push
  split
  next =>
    obtain ⟨others, left, all⟩ := drained
    refine ⟨others, left, ?_⟩
    rw [← all]
    simp [Buffer.drain]
  next => exact ⟨sent, gone, by simp⟩

/-- Printed lines overtake the bytes that wait. -/
theorem Carries.printLines (carries : Carries printed written buffer) (lines : List String) :
    Carries (printed ++ printedBytes lines) written (buffer.printLines lines) := by
  obtain ⟨sent, gone, all⟩ := carries
  refine ⟨sent, ?_, all⟩
  have together := gone.append (.only_first (printedBytes lines))
  rw [List.append_nil] at together
  simpa [Buffer.printLines] using together

theorem Carries.offer (carries : Carries printed written buffer) (bytes : List UInt8) :
    ∃ last, outlet.offer buffer bytes = (last, none) ∧ Carries printed (written ++ bytes) last := by
  induction bytes generalizing buffer written with
  | nil => exact ⟨buffer, rfl, by rwa [List.append_nil]⟩
  | cons byte rest ih =>
    obtain ⟨last, taken, kept⟩ := ih (carries.push byte)
    rw [List.append_assoc] at kept
    exact ⟨last, taken, kept⟩

theorem Carries.emit (carries : Carries printed written buffer) (event : Event) :
    ∃ last, outlet.receiver.emit ⟨buffer, none⟩ event = (⟨last, none⟩, []) ∧
      Carries printed (written ++ lineBytes event) last := by
  obtain ⟨last, taken, kept⟩ := carries.offer (lineBytes event)
  refine ⟨last, ?_, kept⟩
  simp only [Outlet.receiver, Sink.emit, taken]

end Buffer

end Stream

/-! ## Where the hostname comes from -/

namespace CommandLine.Reading

variable {environment : Assoc String} {reading after : Reading}

theorem value?_set {setting : Setting} {value : String}
    (done : reading.set setting value = .ok after) (other : Setting) :
    after.value? other =
      if other = setting then (reading.value? other).or (some value) else reading.value? other := by
  unfold set at done
  split at done
  · cases done
  · split at done
    · cases done
      by_cases same : other = setting
      · subst same
        cases found : reading.values.find? (fun entry => entry.1 = other) <;>
          simp [value?, List.find?_append, found]
      · have apart : setting ≠ other := Ne.symm same
        cases found : reading.values.find? (fun entry => entry.1 = other) <;>
          simp [value?, List.find?_append, found, same, apart]
    · cases done

/-- A setting that has no value takes that of its place in the environment. -/
theorem value?_fill {place : Setting × String} (done : reading.fill environment place = .ok after)
    (setting : Setting) :
    after.value? setting =
      if setting = place.1 then (reading.value? setting).or (Assoc.get? environment place.2)
      else reading.value? setting := by
  unfold fill at done
  split at done
  next value missing found =>
    rw [value?_set done, found]
  next kept =>
    cases done
    by_cases same : setting = place.1
    · subst same
      cases given : reading.value? place.1 with
      | some value => simp
      | none =>
        cases found : Assoc.get? environment place.2 with
        | none => simp
        | some value => exact absurd found (kept value given)
    · simp [same]

theorem value?_foldlM_fill {places : List (Setting × String)}
    (done : places.foldlM (fill environment) reading = .ok after) (setting : Setting) :
    after.value? setting = (places.filter (·.1 = setting)).foldl
      (fun value place => value.or (Assoc.get? environment place.2)) (reading.value? setting) := by
  induction places generalizing reading with
  | nil =>
    cases done
    rfl
  | cons place rest ih =>
    rw [List.foldlM_cons] at done
    cases filled : reading.fill environment place with
    | error stop =>
      rw [filled] at done
      cases done
    | ok next =>
      rw [filled] at done
      rw [ih done, value?_fill filled]
      by_cases same : setting = place.1
      · simp [same]
      · simp [same, Ne.symm same]

/-- The hostname of the options is that of the arguments, else that of its variable. -/
theorem hostname_of_parse {arguments : List String} {options : Options}
    (parsed : parse environment arguments = .ok options) :
    ∃ reading, start.takeAll arguments = .ok reading ∧
      options.hostname =
        (reading.value? .hostname).or (Assoc.get? environment "REFORMER_HOSTNAME") := by
  unfold parse at parsed
  cases taken : start.takeAll arguments with
  | error stop =>
    rw [taken] at parsed
    cases parsed
  | ok reading =>
    rw [taken] at parsed
    cases filled : places.foldlM (fill environment) reading with
    | error stop =>
      simp only [bind, Except.bind, filled] at parsed
      cases parsed
    | ok last =>
      simp only [bind, Except.bind, filled] at parsed
      cases parsed
      exact ⟨reading, rfl, value?_foldlM_fill filled .hostname⟩

end CommandLine.Reading

/-! ## The engine of a configuration -/

/-- A configuration that has been read has been validated, so its fields make a map. -/
theorem Config.fieldMap_of_read {source : String} {config : Config}
    (loaded : read source = .ok config) : ∃ fields, config.fieldMap = .ok fields := by
  unfold read at loaded
  split at loaded
  · cases loaded
  · split at loaded
    · cases loaded
    next fields accepted =>
      cases loaded
      unfold validate at accepted
      split at accepted
      · cases accepted
      · split at accepted
        · cases accepted
        · exact ⟨fields, accepted⟩

/-- A text that is read as a configuration makes an engine, whatever the hostname. -/
theorem Config.engine_of_read {source : String} {config : Config}
    (loaded : read source = .ok config) (hostname : Option String) (fallback : String) :
    ∃ engine, { config with hostname := hostname }.engine fallback = .ok engine ∧
      engine.Coherent ∧
      engine.settings = ⟨config.mode, hostname.getD fallback, config.typecast⟩ := by
  obtain ⟨fields, mapped⟩ := fieldMap_of_read loaded
  obtain ⟨written, read, _⟩ := pairs_of_fieldMap mapped
  refine ⟨Engine.build config.outputTag ⟨config.mode, hostname.getD fallback, config.typecast⟩
    written config.parsedRemoveKeys config.renew, ?_, Engine.coherent_build _ _ _ _ _, rfl⟩
  simp only [engine, fieldMap, read]
  rfl

/-! ## Events and the machines that they are transformed on -/

namespace Engine

/-- What comes of events that are transformed each on its own machine. -/
def reformedOn (engine : Engine) (runs : List (Host × Event)) : List Event :=
  runs.filterMap fun run => (@transform run.1 engine run.2).outcome.toOption

/-- The lines that are printed meanwhile. -/
def printedOn (engine : Engine) (runs : List (Host × Event)) : List String :=
  runs.flatMap fun run => (@transform run.1 engine run.2).printed

/-- The counters after such events and so many lines that hold none. -/
def tallyOn (engine : Engine) (runs : List (Host × Event)) (invalid : Nat) : Metrics where
  received := runs.length
  emitted := (engine.reformedOn runs).length
  dropped := runs.countP fun run => !(@transform run.1 engine run.2).outcome.isOk
  unknownPlaceholders := (runs.flatMap fun run => (@transform run.1 engine run.2).unknown).length
  invalidInput := invalid

variable {engine : Engine}

theorem reformedOn_append (before after : List (Host × Event)) :
    engine.reformedOn (before ++ after) = engine.reformedOn before ++ engine.reformedOn after :=
  List.filterMap_append

theorem printedOn_append (before after : List (Host × Event)) :
    engine.printedOn (before ++ after) = engine.printedOn before ++ engine.printedOn after :=
  List.flatMap_append

theorem reformedOn_singleton (host : Host) (event : Event) :
    engine.reformedOn [(host, event)] = (engine.transform event).outcome.toOption.toList := by
  cases found : (engine.transform event).outcome.toOption <;> simp [reformedOn, found]

theorem printedOn_singleton (host : Host) (event : Event) :
    engine.printedOn [(host, event)] = (engine.transform event).printed :=
  List.flatMap_singleton ..

/-- Each event that is received comes out or is dropped. -/
theorem length_eq_reformedOn (engine : Engine) (runs : List (Host × Event)) :
    runs.length = (engine.reformedOn runs).length +
      runs.countP fun run => !(@transform run.1 engine run.2).outcome.isOk := by
  induction runs with
  | nil => rfl
  | cons run rest ih =>
    rw [List.length_cons, ih, reformedOn, reformedOn, List.countP_cons, List.filterMap_cons]
    cases (@transform run.1 engine run.2).outcome with
    | ok out => simp [Except.toOption, Except.isOk, Except.toBool, Nat.add_right_comm]
    | error error => simp [Except.toOption, Except.isOk, Except.toBool, Nat.add_assoc]

theorem tally_tallyOn (host : Host) (runs : List (Host × Event)) (invalid : Nat) (event : Event) :
    engine.tally (engine.tallyOn runs invalid) [event] =
      engine.tallyOn (runs ++ [(host, event)]) invalid := by
  simp only [tally, tallyOn, reformedOn_append, reformedOn_singleton, List.length_append,
    List.countP_append, List.flatMap_append]
  cases found : (engine.transform event).outcome with
  | ok out => simp [found, Except.toOption, Except.isOk, Except.toBool]
  | error error => simp [found, Except.toOption, Except.isOk, Except.toBool]

end Engine

open Recast.Stream

namespace Program

/-! ## Reading a source -/

/-- The lines that a source gives before it ends or fails. -/
def Source.lines (source : Source) : List (List UInt8) :=
  linesOf source.fault?.isNone source.content

/-- Reading fails after some lines: the next one is no text, or no more can be read. -/
inductive Source.FailsAfter (source : Source) (front : List (List UInt8)) : Prop where
  | unreadable {line : List UInt8} {rest : List (List UInt8)}
      (cut : source.lines = front ++ line :: rest) (noText : ¬ IsReadable line)
  | stopped {fault : ReadFault} (whole : source.lines = front) (stops : source.fault? = some fault)

/-- The events of lines from a number on, with the machines that they are transformed on. -/
def runsFrom (machine : Nat → Host) (clock : Nat → Int) (number : Nat)
    (lines : List (List Char)) : List (Host × Event) :=
  (lines.zipIdx number).filterMap fun line => (eventAt? clock line).map (machine line.2, ·)

def undecoded (lines : List (List Char)) : Nat :=
  lines.countP fun line => !(decodeLine line).isOk

/-- What a run has done: its events have been transformed as the engine does from the start, what
came of them has gone out or waits, and all of it is counted. -/
structure Handled (engine : Engine) (runs : List (Host × Event)) (invalid : Nat)
    (pipeline : Pipeline Buffer Refusal) : Prop where
  continues : pipeline.engine.Continues engine
  metrics : pipeline.metrics = engine.tallyOn runs invalid
  sink : ∃ buffer, pipeline.sink = ⟨buffer, none⟩ ∧
    Buffer.Carries (printedBytes (engine.printedOn runs))
      ((engine.reformedOn runs).flatMap lineBytes) buffer

section Process

variable {engine : Engine}

theorem handled_fresh (coherent : engine.Coherent) :
    Handled engine [] 0 (freshPipeline engine) :=
  ⟨coherent.continues, rfl, .empty, rfl, Buffer.carries_empty⟩

/-- A line that is an event is transformed on the machine as it is then. -/
theorem Handled.event {runs : List (Host × Event)} {invalid : Nat}
    {pipeline : Pipeline Buffer Refusal} (handled : Handled engine runs invalid pipeline)
    (coherent : engine.Coherent) (host : Host) (event : Event) :
    let sink := { pipeline.sink with
      state := pipeline.sink.state.printLines (pipeline.engine.transform event).printed }
    Handled engine (runs ++ [(host, event)]) invalid
      (Drive.process Buffer.outlet.receiver { pipeline with sink := sink } event) := by
  intro sink
  obtain ⟨continues, metrics, buffer, sunk, carries⟩ := handled
  obtain ⟨outcome, _, printed⟩ := continues.transform_eq coherent event
  refine ⟨(continues.coherent.continues_process _ event).trans continues, ?_, ?_⟩
  · simp only [Drive.process, Engine.process_metrics, metrics, continues.tally_eq coherent]
    exact Engine.tally_tallyOn host runs invalid event
  · have carried := carries.printLines (engine.transform event).printed
    have begun : sink = ⟨buffer.printLines (engine.transform event).printed, none⟩ := by
      simp only [sink, sunk, printed]
    simp only [Drive.process, (pipeline.engine.process_eq pipeline.metrics event).1, outcome, begun,
      Engine.reformedOn_append, Engine.reformedOn_singleton, Engine.printedOn_append,
      Engine.printedOn_singleton, printedBytes_append, List.flatMap_append]
    cases (engine.transform event).outcome with
    | error error =>
      refine ⟨_, rfl, ?_⟩
      simpa [Except.toOption] using carried
    | ok out =>
      obtain ⟨last, emitted, kept⟩ := carried.emit out
      refine ⟨last, ?_, ?_⟩
      · simp only [Except.toOption, Option.toList_some, Receiver.emitAll, emitted]
      · simpa [Except.toOption] using kept

/-- One line. -/
theorem Handled.line {runs : List (Host × Event)} {invalid : Nat}
    {pipeline : Pipeline Buffer Refusal} (handled : Handled engine runs invalid pipeline)
    (coherent : engine.Coherent) (machine : Nat → Host) (clock : Nat → Int) (number : Nat)
    (line : List Char) :
    Handled engine (runs ++ runsFrom machine clock number [line]) (invalid + undecoded [line])
      (@handleLine (machine number) clock pipeline number line) := by
  simp only [handleLine, printedFor, Drive.handle, runsFrom, undecoded, eventAt?,
    List.zipIdx_singleton, List.filterMap_cons, List.filterMap_nil, List.countP_singleton]
  cases decodeLine line with
  | error fault =>
    have skipped : Handled engine (runs ++ []) (invalid + 1) (pipeline.skip number) := by
      obtain ⟨continues, metrics, sink⟩ := handled
      rw [List.append_nil]
      refine ⟨continues, ?_, sink⟩
      rw [Drive.skip, metrics]
      rfl
    exact skipped
  | ok found =>
    cases found with
    | none =>
      have same : Handled engine (runs ++ []) (invalid + 0) pipeline := by rwa [List.append_nil]
      exact same
    | some incoming =>
      have transformed := handled.event coherent (machine number) (incoming.toEvent (clock number))
      simpa [Except.isOk, Except.toBool] using transformed

theorem runsFrom_cons (machine : Nat → Host) (clock : Nat → Int) (number : Nat)
    (line : List Char) (rest : List (List Char)) :
    runsFrom machine clock number (line :: rest) =
      runsFrom machine clock number [line] ++ runsFrom machine clock (number + 1) rest := by
  rw [runsFrom, List.zipIdx_cons, ← List.singleton_append, List.filterMap_append]
  rfl

/-- Several lines, whatever comes after them. -/
theorem Handled.lines {runs : List (Host × Event)} {invalid : Nat}
    {pipeline : Pipeline Buffer Refusal} (handled : Handled engine runs invalid pipeline)
    (coherent : engine.Coherent) (machine : Nat → Host) (clock : Nat → Int) (number : Nat)
    {bytes : List (List UInt8)} {lines : List (List Char)}
    (reads : List.Forall₂ Reads bytes lines) :
    ∃ after, Handled engine (runs ++ runsFrom machine clock number lines)
        (invalid + undecoded lines) after ∧
      ∀ rest, handleLines machine clock pipeline number (bytes ++ rest) =
        handleLines machine clock after (number + bytes.length) rest := by
  -- The lines that are left vary together with what has been handled before them.
  induction reads generalizing runs invalid pipeline number with
  | nil =>
    refine ⟨pipeline, ?_, fun _ => rfl⟩
    rwa [runsFrom, List.zipIdx_nil, List.filterMap_nil, List.append_nil]
  | @cons front line others rest reading _ ih =>
    obtain ⟨read, decoded, same⟩ := reading
    have alike : @handleLine (machine number) clock pipeline number read =
        @handleLine (machine number) clock pipeline number line := by
      simp only [handleLine, printedFor, Drive.handle, same]
    obtain ⟨after, all, goes⟩ := ih (handled.line coherent machine clock number line) (number + 1)
    refine ⟨after, ?_, fun left => ?_⟩
    · rw [runsFrom_cons, ← List.append_assoc]
      have counted : undecoded (line :: rest) = undecoded [line] + undecoded rest := by
        rw [undecoded, ← List.singleton_append, List.countP_append]
        rfl
      rwa [counted, ← Nat.add_assoc]
    · rw [List.cons_append, handleLines, decoded]
      dsimp only
      rw [alike, goes left, List.length_cons, Nat.add_assoc, Nat.add_comm 1]

theorem reads_of_decoded {front : List (List UInt8)} {texts : List (List Char)}
    (decoded : front.map Text.decodeUtf8? = texts.map some) : List.Forall₂ Reads front texts := by
  induction front generalizing texts with
  | nil =>
    obtain rfl : texts = [] := List.map_eq_nil_iff.mp decoded.symm
    exact .nil
  | cons bytes front ih =>
    cases texts with
    | nil => cases decoded
    | cons text texts =>
      obtain ⟨first, others⟩ := List.cons.inj decoded
      exact .cons ⟨text, first, rfl⟩ (ih others)

/-- A source that is a text has been handled as a whole, and the counters are those of its events.
-/
theorem process_of_text (coherent : engine.Coherent) (options : Options) (machine : Nat → Host)
    (clock : Nat → Int) (text : List Char) :
    let runs := runsFrom machine clock 1 (textLines text)
    ∃ output, Interleaves (printedBytes (engine.printedOn runs))
        ((engine.reformedOn runs).flatMap lineBytes) output ∧
      process options engine machine clock (.bytes (Text.encodeUtf8 text)) =
        ⟨0, output, if options.stats then
          some (engine.tallyOn runs (undecoded (textLines text))).summary else none, none⟩ := by
  intro runs
  obtain ⟨after, ⟨_, metrics, buffer, sink, carries⟩, goes⟩ :=
    (handled_fresh coherent).lines coherent machine clock 1 (reads_linesOf text)
  have ran := goes []
  rw [List.append_nil, handleLines] at ran
  rw [List.nil_append] at metrics carries
  rw [Nat.zero_add] at metrics
  refine ⟨buffer.drain.givenUp, carries.drain.givenUp, ?_⟩
  unfold process
  simp only [Source.fault?, Source.content, Option.isNone_none, ran, sink, Sink.finish,
    Buffer.outlet, metrics, runs]

/-- A source that fails after some lines: these have been handled. -/
theorem process_of_failsAfter (coherent : engine.Coherent) (options : Options)
    (machine : Nat → Host) (clock : Nat → Int) {source : Source} {front : List (List UInt8)}
    {texts : List (List Char)} (fails : source.FailsAfter front)
    (decoded : front.map Text.decodeUtf8? = texts.map some) :
    let runs := runsFrom machine clock 1 texts
    ∃ fault output, Interleaves (printedBytes (engine.printedOn runs))
        ((engine.reformedOn runs).flatMap lineBytes) output ∧
      process options engine machine clock source = .failed output (.reading fault) := by
  intro runs
  obtain ⟨after, ⟨_, _, buffer, sink, carries⟩, goes⟩ :=
    (handled_fresh coherent).lines coherent machine clock 1 (reads_of_decoded decoded)
  rw [List.nil_append] at carries
  have started : handleLines machine clock (freshPipeline engine) 1
      (linesOf source.fault?.isNone source.content) =
        handleLines machine clock (freshPipeline engine) 1 source.lines := rfl
  rw [process, started]
  cases fails with
  | @unreadable line rest cut noText =>
    have unread : Text.decodeUtf8? line = none := Option.not_isSome_iff_eq_none.mp noText
    refine ⟨.invalidText, buffer.givenUp, carries.givenUp, ?_⟩
    rw [cut, goes, handleLines, unread]
    simp only [sink]
  | @stopped fault whole stops =>
    have ran := goes []
    rw [List.append_nil, handleLines] at ran
    refine ⟨fault, buffer.givenUp, carries.givenUp, ?_⟩
    rw [whole, ran, stops]
    simp only [sink]

/-- Each event is a line of its own, with one line break. -/
theorem count_lineBreak_lines (events : List Event) :
    (events.flatMap lineBytes).count lineBreak = events.length := by
  induction events with
  | nil => rfl
  | cons event rest ih =>
    have unbroken : lineBreak ∉ Text.encodeUtf8 event.line :=
      notMem_encodeUtf8_of_noControl (noControl_line event) (by decide)
    rw [List.flatMap_cons, List.count_append, ih, lineBytes_eq, List.count_append,
      List.count_eq_zero_of_not_mem unbroken, List.length_cons, Nat.add_comm]
    rfl

end Process

/-! ## The program -/

/-- The hostname that templates see: that of the options, else that of the configuration, else that
of the machine. -/
def hostnameFor (options : Options) (config : Config) (surroundings : Surroundings) : String :=
  (options.hostname.or config.hostname).getD
    (machineName surroundings.environment surroundings.systemName)

section Run

variable {arguments : List String} {surroundings : Surroundings} {options : Options}
  {config : Config} {written : List Char}

/-- A program that neither validates nor describes goes on to process its input. -/
theorem run_eq_process
    (parsed : CommandLine.parse surroundings.environment arguments = .ok options)
    (processes : options.validate = false ∧ options.dryRun = false)
    (file : surroundings.file? options.config = some (.bytes (Text.encodeUtf8 written)))
    (loaded : Config.read (String.ofList written) = .ok config) :
    ∃ engine : Engine, engine.Coherent ∧
      engine.settings.hostname = hostnameFor options config surroundings ∧
      (∀ fallback, { config with
        hostname := some (hostnameFor options config surroundings) }.engine fallback =
          .ok engine) ∧
      ∀ clock, run arguments surroundings clock =
        carryOut options surroundings clock (.process engine) := by
  obtain ⟨validates, describes⟩ := processes
  obtain ⟨engine, built, coherent, settings⟩ := Config.engine_of_read loaded
    (options.hostname.or config.hostname)
    (machineName surroundings.environment surroundings.systemName)
  have same : (options.hostname <|> config.hostname) = options.hostname.or config.hostname := by
    cases options.hostname <;> rfl
  have content : loadConfig options (surroundings.file? options.config) =
      .ok { config with hostname := options.hostname.or config.hostname } := by
    simp only [loadConfig, file, Text.decodeUtf8?_encodeUtf8, loaded, same]
  have planned : plan options surroundings.environment surroundings.systemName
      (surroundings.file? options.config) = .ok (.process engine) := by
    simp [plan, content, planFor, validates, describes, built, bind, Except.bind]
  refine ⟨engine, coherent, ?_, ?_, ?_⟩
  · rw [settings]
    rfl
  · intro fallback
    exact built
  · intro clock
    simp only [run, parsed, planned]

/-- What a program prints that neither validates nor describes its configuration, and how it ends.
Its engine is that of the configuration with the hostname of the options or their variable, else its
own, else that of the machine. If the input is a text, it prints the lines of the events that come
through, among them what templates print, and its counters describe the same events. So it prints
these lines only, and as many as it counts, if and only if no template prints. If reading fails, it
prints what comes of the lines before, and no counters. -/
theorem run_prints_what_it_counts
    (parsed : CommandLine.parse surroundings.environment arguments = .ok options)
    (processes : options.validate = false ∧ options.dryRun = false)
    (file : surroundings.file? options.config = some (.bytes (Text.encodeUtf8 written)))
    (loaded : Config.read (String.ofList written) = .ok config) (clock : Nat → Int) :
    let hostname := hostnameFor options config surroundings
    let outcome := run arguments surroundings clock
    (∃ reading, CommandLine.Reading.start.takeAll arguments = .ok reading ∧
      options.hostname = (reading.value? .hostname).or
        (Assoc.get? surroundings.environment "REFORMER_HOSTNAME")) ∧
    ∃ engine : Engine, engine.settings.hostname = hostname ∧
      (∀ fallback,
        { config with hostname := some hostname }.engine fallback = .ok engine) ∧
      (∀ text, inputSource options surroundings = .ok (.bytes (Text.encodeUtf8 text)) →
        let runs := runsFrom surroundings.machine clock 1 (textLines text)
        let emitted := engine.reformedOn runs
        let printed := engine.printedOn runs
        let dropped := runs.countP fun run => !(@Engine.transform run.1 engine run.2).outcome.isOk
        let unknown := runs.flatMap fun run => (@Engine.transform run.1 engine run.2).unknown
        let invalid := (textLines text).countP fun line => !(decodeLine line).isOk
        outcome.code = 0 ∧ outcome.failure = none ∧
        Interleaves (printedBytes printed) (emitted.flatMap lineBytes) outcome.output ∧
        (outcome.output = emitted.flatMap lineBytes ↔ printed = []) ∧
        (options.stats = false → outcome.summary = none) ∧
        (options.stats = true → outcome.summary = some ("received=" ++ toString runs.length ++
          " emitted=" ++ toString emitted.length ++ " dropped=" ++ toString dropped ++
          " unknown_placeholders=" ++ toString unknown.length ++
          " invalid_input=" ++ toString invalid)) ∧
        runs.length = emitted.length + dropped ∧
        (emitted.length = outcome.output.count lineBreak ↔ printed = [])) ∧
      ∀ source front (texts : List (List Char)), inputSource options surroundings = .ok source →
        source.FailsAfter front → front.map Text.decodeUtf8? = texts.map some →
        let runs := runsFrom surroundings.machine clock 1 texts
        Interleaves (printedBytes (engine.printedOn runs))
          ((engine.reformedOn runs).flatMap lineBytes) outcome.output ∧
        outcome.code ≠ 0 ∧ outcome.summary = none := by
  intro hostname outcome
  obtain ⟨engine, coherent, host, built, ran⟩ := run_eq_process parsed processes file loaded
  have ends : outcome = carryOut options surroundings clock (.process engine) := ran clock
  refine ⟨CommandLine.Reading.hostname_of_parse parsed, engine, host, built, ?_, ?_⟩
  · intro text input runs emitted printed dropped unknown invalid
    obtain ⟨output, interleaves, processed⟩ :=
      process_of_text coherent options surroundings.machine clock text
    have whole : outcome = ⟨0, output, if options.stats then
        some (engine.tallyOn runs invalid).summary else none, none⟩ := by
      rw [ends, carryOut, input]
      exact processed
    have breaks : output.count lineBreak =
        (printedBytes printed).count lineBreak + emitted.length := by
      rw [interleaves.count_eq, count_lineBreak_lines]
    rw [whole]
    refine ⟨rfl, rfl, interleaves, ?_, ?_, ?_, engine.length_eq_reformedOn runs, ?_⟩
    · exact interleaves.eq_second_iff.trans printedBytes_eq_nil_iff
    · intro unasked
      simp [unasked]
    · intro asked
      simp only [asked, if_true]
      rfl
    · have none : emitted.length = output.count lineBreak ↔
          (printedBytes printed).count lineBreak = 0 := by omega
      rw [none]
      constructor
      · intro unbroken
        have short := length_le_count_printedBytes printed
        exact List.eq_nil_of_length_eq_zero (by omega)
      · intro nothing
        rw [nothing]
        rfl
  · intro source front texts input fails decoded runs
    obtain ⟨fault, output, interleaves, processed⟩ :=
      process_of_failsAfter coherent options surroundings.machine clock fails decoded
    have failed : outcome = .failed output (.reading fault) := by
      rw [ends, carryOut, input]
      exact processed
    rw [failed]
    exact ⟨interleaves, Nat.one_ne_zero, rfl⟩

end Run

/-- A configuration whose output tag shows the hostname, which comes from its variable. Of two lines
one is an event; once the second is no text, the first is still printed. -/
theorem run_prints_what_it_counts_box :
    let surroundings (input : List UInt8) : Surroundings :=
      { environment := [("REFORMER_HOSTNAME", "box")]
        file? := fun path => if path = "reformer.yaml" then some (.bytes (Text.encodeUtf8
          "output_tag: $\x7bhostname\x7d.$\x7btag\x7d\nenable_ruby: false\n".toList)) else none
        standardInput := input
        systemName := none }
    let line := "\x7b\"tag\":\"box.a\",\"time\":1,\"record\":\x7b\x7d\x7d\n"
    let whole := run ["--stats"] (surroundings (Text.encodeUtf8 "[\"a\",1]\nbad\n".toList))
      fun _ => 7
    let broken := run ["--stats"]
      (surroundings (Text.encodeUtf8 "[\"a\",1]\n".toList ++ [255, lineBreak])) fun _ => 7
    (whole.code = 0 ∧ whole.output = Text.encodeUtf8 line.toList ∧ whole.summary =
      some "received=1 emitted=1 dropped=0 unknown_placeholders=0 invalid_input=1") ∧
      broken.output = Text.encodeUtf8 line.toList ∧ broken.code ≠ 0 ∧ broken.summary = none := by
  intro surroundings line whole broken
  obtain ⟨config, loaded⟩ : ∃ config, Config.read (String.ofList
      "output_tag: $\x7bhostname\x7d.$\x7btag\x7d\nenable_ruby: false\n".toList) = .ok config := by
    have loads : (Config.read (String.ofList
        "output_tag: $\x7bhostname\x7d.$\x7btag\x7d\nenable_ruby: false\n".toList)).isOk =
          true := by
      decide +kernel
    generalize Config.read _ = result at loads ⊢
    cases result with
    | error error => cases loads
    | ok config => exact ⟨config, rfl⟩
  have parsed : CommandLine.parse [("REFORMER_HOSTNAME", "box")] ["--stats"] =
      .ok ⟨"reformer.yaml", none, some "box", false, false, .info, false, .text, true⟩ := by
    decide +kernel
  have wholeOutput : whole.output = Text.encodeUtf8 line.toList := by decide +kernel
  have brokenOutput : broken.output = Text.encodeUtf8 line.toList := by decide +kernel
  constructor
  · obtain ⟨_, engine, _, _, succeeds, _⟩ := run_prints_what_it_counts
      (show CommandLine.parse (surroundings (Text.encodeUtf8
        "[\"a\",1]\nbad\n".toList)).environment ["--stats"] = _ from parsed)
      ⟨rfl, rfl⟩ rfl loaded fun _ => 7
    obtain ⟨code, _, _, _, _, _, _, _⟩ := succeeds "[\"a\",1]\nbad\n".toList rfl
    exact ⟨code, wholeOutput, by decide +kernel⟩
  · obtain ⟨_, engine, _, _, _, fails⟩ := run_prints_what_it_counts
      (show CommandLine.parse (surroundings (Text.encodeUtf8
        "[\"a\",1]\n".toList ++ [255, lineBreak])).environment ["--stats"] = _ from parsed)
      ⟨rfl, rfl⟩ rfl loaded fun _ => 7
    have cut : (Source.bytes (Text.encodeUtf8 "[\"a\",1]\n".toList ++ [255, lineBreak])).lines =
        [Text.encodeUtf8 "[\"a\",1]".toList] ++ [255] :: [] := by
      decide +kernel
    have noText : ¬ IsReadable [255] := by
      unfold IsReadable
      decide +kernel
    obtain ⟨_, code, summary⟩ := fails _ _ ["[\"a\",1]".toList] rfl (.unreadable cut noText)
      (by decide +kernel)
    exact ⟨brokenOutput, code, summary⟩

end Program

end Recast
