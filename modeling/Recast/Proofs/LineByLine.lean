import Mathlib
import Recast.Proofs.Counting
import Recast.Proofs.InputLines

set_option autoImplicit false

/-!
# Driving an engine line by line

An engine that is driven over an input handles the first lines of its text one after another, all of
them if no shutdown comes. What one line adds and what several lines add are of one shape, so that
the lines can be put together.
-/

namespace Recast

/-- The line that a notice reports as malformed. -/
def Notice.malformedLine? : Notice → Option Nat
  | .malformedLine number => some number
  | _ => none

namespace Stream

variable {σ : Type} {receiver : Receiver σ} {clock : Nat → Int} {engine : Engine}

/-- The event of a line and its number, if the line decodes to one. -/
def eventAt? (clock : Nat → Int) (line : List Char × Nat) : Option Event :=
  match decodeLine line.1 with
  | .ok (some incoming) => some (incoming.toEvent (clock line.2))
  | _ => none

/-- The number of a line that does not decode. -/
def malformedAt? (line : List Char × Nat) : Option Nat :=
  match decodeLine line.1 with
  | .ok _ => none
  | .error _ => some line.2

theorem Receiver.emitAll_eq_foldl (receiver : Receiver σ) (state : σ) (events : List Event) :
    (receiver.emitAll state events).1 =
      events.foldl (fun state event => (receiver.emit state event).1) state := by
  induction events generalizing state with
  | nil => rfl
  | cons event rest ih => exact ih _

theorem Receiver.emitAll_append (receiver : Receiver σ) (state : σ) (before after : List Event) :
    (receiver.emitAll state (before ++ after)).1 =
      (receiver.emitAll (receiver.emitAll state before).1 after).1 := by
  simp only [Receiver.emitAll_eq_foldl, List.foldl_append]

/-- A receiver reports nothing but failed writes. -/
theorem Receiver.eq_failedWrite_of_mem_emitAll (receiver : Receiver σ) {state : σ}
    {events : List Event} {notice : Notice} (member : notice ∈ (receiver.emitAll state events).2) :
    ∃ tag, notice = .failedWrite tag := by
  induction events generalizing state with
  | nil => cases member
  | cons event rest ih =>
    rcases List.mem_append.mp member with first | others
    · exact receiver.reportsWrites state event notice first
    · exact ih others

theorem Receiver.malformedLine_emitAll (receiver : Receiver σ) (state : σ) (events : List Event) :
    (receiver.emitAll state events).2.filterMap Notice.malformedLine? = [] := by
  rw [List.filterMap_eq_nil_iff]
  intro notice member
  obtain ⟨tag, rfl⟩ := receiver.eq_failedWrite_of_mem_emitAll member
  rfl

/-- An engine reports nothing but placeholders that it did not find and events that it dropped. -/
theorem cases_of_mem_process [Host] {engine : Engine} {metrics : Metrics} {event : Event}
    {notice : Notice} (member : notice ∈ (engine.process metrics event).notices) :
    (∃ token tag, notice = .unknownPlaceholder token tag) ∨
      ∃ kind tag, notice = .droppedEvent kind tag := by
  have unknown : ∀ notice ∈ Engine.unknownNotices event (engine.transform event).unknown,
      ∃ token tag, notice = .unknownPlaceholder token tag := by
    intro notice member
    obtain ⟨token, _, rfl⟩ := List.mem_map.mp member
    exact ⟨token, event.tag, rfl⟩
  simp only [Engine.process] at member
  cases outcome : (engine.transform event).outcome with
  | ok reformed =>
    rw [outcome] at member
    exact .inl (unknown notice member)
  | error error =>
    rw [outcome] at member
    rcases List.mem_append.mp member with found | dropped
    · exact .inl (unknown notice found)
    · exact .inr ⟨_, _, List.mem_singleton.mp dropped⟩

theorem malformedLine_process [Host] (engine : Engine) (metrics : Metrics) (event : Event) :
    (engine.process metrics event).notices.filterMap Notice.malformedLine? = [] := by
  rw [List.filterMap_eq_nil_iff]
  intro notice member
  obtain ⟨token, tag, rfl⟩ | ⟨kind, tag, rfl⟩ := cases_of_mem_process member
  · rfl
  · rfl

/-- What a driven engine has done between two states: events have been transformed as the engine
does from the start, and lines have been reported as malformed. -/
structure Drive.Handles [Host] (receiver : Receiver σ) (engine : Engine) (events : List Event)
    (malformed : List Nat) (before after : Drive σ) : Prop where
  continues : after.engine.Continues engine
  sink : after.sink = (receiver.emitAll before.sink (engine.reformed events)).1
  metrics : after.metrics = { engine.tally before.metrics events with
    invalidInput := before.metrics.invalidInput + malformed.length }
  notices : ∃ reported, after.notices = before.notices ++ reported ∧
    reported.filterMap Notice.malformedLine? = malformed

theorem Drive.Handles.refl [Host] {drive : Drive σ} (continues : drive.engine.Continues engine) :
    drive.Handles receiver engine [] [] drive :=
  ⟨continues, rfl, rfl, [], (List.append_nil _).symm, rfl⟩

theorem Drive.Handles.trans [Host] {before middle after : Drive σ} {first second : List Event}
    {malformed others : List Nat} (one : before.Handles receiver engine first malformed middle)
    (two : middle.Handles receiver engine second others after) :
    before.Handles receiver engine (first ++ second) (malformed ++ others) after where
  continues := two.continues
  sink := by
    rw [two.sink, one.sink, Engine.reformed_append, Receiver.emitAll_append]
  metrics := by
    rw [two.metrics, one.metrics, Engine.tally_append]
    simp [Engine.tally, Nat.add_assoc]
  notices := by
    obtain ⟨reported, kept, found⟩ := one.notices
    obtain ⟨later, keptLater, foundLater⟩ := two.notices
    refine ⟨reported ++ later, ?_, ?_⟩
    · rw [keptLater, kept, List.append_assoc]
    · rw [List.filterMap_append, found, foundLater]

theorem Drive.handles_process [Host] {drive : Drive σ} (coherent : engine.Coherent)
    (continues : drive.engine.Continues engine) (event : Event) :
    drive.Handles receiver engine [event] [] (drive.process receiver event) where
  continues := (continues.coherent.continues_process _ event).trans continues
  sink := by
    have emitted := (drive.engine.process_eq drive.metrics event).1
    rw [(continues.transform_eq coherent event).1] at emitted
    rw [process, emitted, Engine.reformed_singleton]
  metrics := by
    simp only [process, Engine.process_metrics, continues.tally_eq coherent]
    rfl
  notices := by
    refine ⟨_, rfl, ?_⟩
    rw [List.filterMap_append, malformedLine_process, Receiver.malformedLine_emitAll]
    rfl

theorem Drive.handles_skip [Host] {drive : Drive σ} (continues : drive.engine.Continues engine)
    (number : Nat) : drive.Handles receiver engine [] [number] (drive.skip number) where
  continues := continues
  sink := rfl
  metrics := rfl
  notices := ⟨[.malformedLine number], rfl, rfl⟩

/-- One line adds its event or its number, and nothing if it is blank. -/
theorem Drive.handles_line [Host] {drive : Drive σ} (receiver : Receiver σ) (clock : Nat → Int)
    (coherent : engine.Coherent) (continues : drive.engine.Continues engine) (number : Nat)
    (line : List Char) :
    drive.Handles receiver engine (eventAt? clock (line, number)).toList
      (malformedAt? (line, number)).toList (drive.handle receiver clock number line) := by
  unfold handle eventAt? malformedAt?
  cases decodeLine line with
  | error fault => exact handles_skip continues number
  | ok found =>
    cases found with
    | none => exact .refl continues
    | some incoming => exact handles_process coherent continues _

/-- The lines of a run that are handled, with their numbers: those before the first at which the
shutdown is taken or that is no text. -/
def handledLines (stops : Nat → Bool) (number : Nat) (lines : List (List UInt8)) :
    List (List Char × Nat) :=
  let reached := (lines.zipIdx number).takeWhile fun line =>
    !stops line.2 && (Text.decodeUtf8? line.1).isSome
  reached.filterMap fun line => (Text.decodeUtf8? line.1).map fun text => (text, line.2)

theorem handledLines_cons (stops : Nat → Bool) (number : Nat) (bytes : List UInt8)
    (rest : List (List UInt8)) :
    handledLines stops number (bytes :: rest) =
      if stops number then []
      else
        match Text.decodeUtf8? bytes with
        | none => []
        | some line => (line, number) :: handledLines stops (number + 1) rest := by
  unfold handledLines
  rw [List.zipIdx_cons, List.takeWhile_cons]
  cases stops number with
  | true => rfl
  | false => cases decoded : Text.decodeUtf8? bytes <;> simp [decoded]

/-- A run handles the lines that it reaches, whatever ends it. -/
theorem handles_handledLines [Host] (receiver : Receiver σ) (clock : Nat → Int) (stops : Nat → Bool)
    (coherent : engine.Coherent) (drive : Drive σ) (continues : drive.engine.Continues engine)
    (number : Nat) (lines : List (List UInt8)) :
    let handled := handledLines stops number lines
    drive.Handles receiver engine (handled.filterMap (eventAt? clock))
      (handled.filterMap malformedAt?) (driveFrom receiver clock stops drive number lines).1 := by
  induction lines generalizing drive number with
  | nil => exact .refl continues
  | cons bytes rest ih =>
    rw [handledLines_cons, driveFrom]
    split
    next => exact .refl continues
    next =>
      cases Text.decodeUtf8? bytes with
      | none => exact .refl continues
      | some line =>
        have first := Drive.handles_line receiver clock coherent continues number line
        have both := first.trans (ih _ first.continues (number + 1))
        simp only [List.filterMap_eq_flatMap_toList] at both ⊢
        exact both

/-- The lines from a number on are handled up to the first at which the shutdown is taken. -/
theorem handles_driveFrom [Host] {bytes : List (List UInt8)} {lines : List (List Char)}
    (receiver : Receiver σ) (clock : Nat → Int) (stops : Nat → Bool) (coherent : engine.Coherent)
    (drive : Drive σ) (continues : drive.engine.Continues engine) (number : Nat)
    (reads : List.Forall₂ Reads bytes lines) :
    ∃ count ≤ lines.length, (∀ passed < count, stops (number + passed) = false) ∧
      (count < lines.length → stops (number + count) = true) ∧
      let handled := (lines.zipIdx number).take count
      let result := driveFrom receiver clock stops drive number bytes
      result.2 = .ok () ∧ drive.Handles receiver engine (handled.filterMap (eventAt? clock))
        (handled.filterMap malformedAt?) result.1 := by
  -- The lines that are left vary together with the state; that the state continues the first engine
  -- is what ties the events of every line to that engine.
  induction reads generalizing drive number with
  | nil =>
    refine ⟨0, Nat.le_refl _, nofun, nofun, rfl, ?_⟩
    exact Drive.Handles.refl continues
  | @cons front line others rest reading reads ih =>
    cases stopped : stops number with
    | true =>
      refine ⟨0, Nat.zero_le _, nofun, fun _ => stopped, ?_⟩
      simp only [driveFrom, stopped, if_true, List.take_zero, List.filterMap_nil, true_and]
      exact .refl continues
    | false =>
      obtain ⟨read, decoded, same⟩ := reading
      have alike : drive.handle receiver clock number read =
          drive.handle receiver clock number line := by
        simp only [Drive.handle, same]
      have first := Drive.handles_line receiver clock coherent continues number line
      obtain ⟨count, bound, passed, halted, finished, others⟩ :=
        ih (drive.handle receiver clock number line) first.continues (number + 1)
      refine ⟨count + 1, Nat.succ_le_succ bound, ?_, ?_, ?_⟩
      · intro before less
        cases before with
        | zero => exact stopped
        | succ before =>
          rw [← Nat.add_assoc, Nat.add_right_comm]
          exact passed before (Nat.lt_of_succ_lt_succ less)
      · intro less
        rw [← Nat.add_assoc, Nat.add_right_comm]
        exact halted (Nat.lt_of_succ_lt_succ less)
      · have both := first.trans others
        simp only [driveFrom, stopped, Bool.false_eq_true, if_false, decoded, alike]
        refine ⟨finished, ?_⟩
        simp only [List.filterMap_eq_flatMap_toList] at both ⊢
        exact both

/-- Driving an engine over the bytes of a text handles the first lines of the text, each once and in
order, up to the first at which the shutdown is taken. What comes of the lines that decode to an
event goes to the receiver, the counters grow by what these lines are, and the lines that do not
decode are reported by their numbers. -/
theorem driveOver_line_by_line [Host] (receiver : Receiver σ) (clock : Nat → Int)
    (stops : Nat → Bool) (outputTag : String) (settings : Settings)
    (fields : List (String × String)) (removeKeys : Option RemoveKeys) (renew : Bool)
    (calls : List Engine.Call) (metrics : Metrics) (sink : σ) (notices : List Notice)
    (text : List Char) :
    let engine := (Engine.build outputTag settings fields removeKeys renew).after calls
    let result := driveOver receiver clock stops ⟨engine, metrics, sink, notices⟩ true
      (Text.encodeUtf8 text)
    ∃ count ≤ (textLines text).length,
      (∀ number, 0 < number → number ≤ count → stops number = false) ∧
      (count < (textLines text).length → stops (count + 1) = true) ∧
      let handled := ((textLines text).zipIdx 1).take count
      let events := handled.filterMap (eventAt? clock)
      let malformed := handled.filterMap malformedAt?
      result.2 = .ok () ∧
      result.1.sink =
        (engine.reformed events).foldl (fun state event => (receiver.emit state event).1) sink ∧
      result.1.metrics = { engine.tally metrics events with
        invalidInput := metrics.invalidInput + malformed.length } ∧
      ∃ reported, result.1.notices = notices ++ reported ∧
        reported.filterMap Notice.malformedLine? = malformed := by
  intro engine result
  have built := Engine.coherent_build outputTag settings fields removeKeys renew
  have coherent : engine.Coherent := (built.continues_after calls).coherent
  obtain ⟨count, bound, passed, halted, finished, handles⟩ :=
    handles_driveFrom receiver clock stops coherent ⟨engine, metrics, sink, notices⟩
      coherent.continues 1 (reads_linesOf text)
  have sinkEq := handles.sink
  rw [receiver.emitAll_eq_foldl] at sinkEq
  refine ⟨count, bound, ?_, ?_, finished, sinkEq, handles.metrics, handles.notices⟩
  · intro number positive within
    have before := passed (number - 1) (by omega)
    rwa [Nat.add_sub_cancel' positive] at before
  · intro less
    rw [Nat.add_comm]
    exact halted less

example :
    let result := driveOver Receiver.collector (fun _ => 7) (· == 5)
      ⟨Engine.build "$\x7btag\x7d" ⟨.placeholder, "h", true⟩ [] none false, .zero, [], []⟩ true
      (Text.encodeUtf8 "[\"a\"]\n\nbad\r\n[\"b\",null]\n[\"c\"]".toList)
    result.1.sink = [⟨"a", 7, []⟩, ⟨"b", 7, []⟩] ∧ result.1.metrics = ⟨2, 2, 0, 0, 1⟩ ∧
      result.1.notices = [.malformedLine 3] := by
  refine ⟨?_, ?_, ?_⟩ <;> cbv

end Stream

end Recast
