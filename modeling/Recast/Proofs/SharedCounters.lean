import Mathlib
import Recast.Proofs.CompilingAhead
import Recast.Proofs.MalformedLines

set_option autoImplicit false

/-!
# Shared counters

Several engines may share their counters and serve requests in any order. What a request adds is
decided by the engine that it is made to, as it was built, and by the request alone, so the counters
account for every event whatever came before.
-/

namespace Recast

/-! ## Placeholders that are not found -/

/-- The tokens of pieces that are not in a table, in order. -/
def Placeholder.Table.missing (table : Placeholder.Table) (pieces : List Template.Piece) :
    List String :=
  pieces.filterMap fun piece =>
    match piece with
    | .literal _ => none
    | .placeholder token => if (Assoc.get? table token).isNone then some token else none

section Expansion

variable {settings : Settings} (table : Placeholder.Table)

theorem flatMap_pieceText (pieces : List Template.Piece) :
    pieces.flatMap (fun piece => (pieceText table piece).2) = table.missing pieces := by
  rw [Placeholder.Table.missing, List.filterMap_eq_flatMap_toList]
  congr 1
  funext piece
  cases piece with
  | literal text => rfl
  | placeholder token => cases found : Assoc.get? table token <;> simp [pieceText, found]

/-- Whether a single placeholder keeps its value or all pieces make a text, each placeholder is
looked up once. -/
theorem expandPieces_unknown (typecast : Bool) (pieces : List Template.Piece) :
    (expandPieces typecast table pieces).2 = table.missing pieces := by
  unfold expandPieces
  split
  next token single =>
    obtain ⟨_, single⟩ := Option.ite_none_right_eq_some.mp single
    obtain rfl := Template.eq_of_single? single
    cases found : Assoc.get? table token <;> simp [Placeholder.Table.missing, found]
  next =>
    dsimp only
    rw [← flatMap_pieceText, List.flatMap, List.map_map]
    rfl

theorem Scope.expand_placeholders {template : Template}
    (coherent : template.Coherent settings.typecast) :
    let expansion := (Scope.placeholders table).expand settings template
    (∃ value, expansion.outcome = .ok value) ∧ expansion.scope = .placeholders table ∧
      expansion.unknown = table.missing (Template.pieces template.source) := by
  have pieces : template.withPieces.1 = Template.pieces template.source := coherent.withPieces_eq
  refine ⟨⟨_, rfl⟩, rfl, ?_⟩
  rw [← expandPieces_unknown table settings.typecast, ← pieces]
  rfl

theorem expandFields_placeholders {fields : FieldMap}
    (coherent : fields.Coherent settings.typecast) :
    let expansion := expandFields settings (.placeholders table) fields
    (∃ values, expansion.outcome = .ok values) ∧
      expansion.unknown =
        fields.flatMap fun field => table.missing (Template.pieces field.2.source) := by
  induction fields with
  | nil => exact ⟨⟨[], rfl⟩, rfl⟩
  | cons field rest ih =>
    obtain ⟨key, template⟩ := field
    obtain ⟨here, others⟩ := FieldMap.coherent_cons.mp coherent
    obtain ⟨⟨value, succeeded⟩, scope, unknown⟩ := Scope.expand_placeholders table here
    obtain ⟨⟨values, expanded⟩, rest⟩ := ih others
    simp only [expandFields, succeeded, scope, unknown, expanded, rest, List.flatMap_cons, and_true]
    exact ⟨_, rfl⟩

theorem Scope.expand_bindings_unknown (settings : Settings) (template : Template)
    (known : Script.Bindings) (answers : Nat → Script.Answers) :
    let expansion := (Scope.bindings known answers).expand settings template
    (∃ after later, expansion.scope = .bindings after later) ∧ expansion.unknown = [] := by
  dsimp only
  rw [expand]
  split
  next => exact ⟨⟨_, _, rfl⟩, rfl⟩
  next =>
    split
    exact ⟨⟨_, _, rfl⟩, rfl⟩

theorem expandFields_bindings_unknown (settings : Settings) (known : Script.Bindings)
    (answers : Nat → Script.Answers) (fields : FieldMap) :
    (expandFields settings (.bindings known answers) fields).unknown = [] := by
  induction fields generalizing known answers with
  | nil => rfl
  | cons field rest ih =>
    obtain ⟨key, template⟩ := field
    obtain ⟨⟨after, later, scope⟩, unknown⟩ :=
      Scope.expand_bindings_unknown settings template known answers
    rw [expandFields]
    cases ((Scope.bindings known answers).expand settings template).outcome with
    | error error => exact unknown
    | ok value => simp only [unknown, scope, ih after later, List.nil_append]

end Expansion

namespace Engine

/-- The placeholders in the templates of an engine that the table of an event does not know. Scripts
look none up. -/
def missing (engine : Engine) (event : Event) : List String :=
  match engine.settings.mode with
  | .placeholder =>
    let table := Placeholder.Table.build event engine.settings.hostname
    engine.sources.flatMap fun source => table.missing (Template.pieces source)
  | .expression => []

theorem Coherent.transform_unknown [Host] {engine : Engine} (coherent : engine.Coherent)
    (event : Event) :
    (engine.transform event).unknown = engine.missing event := by
  cases mode : engine.settings.mode with
  | placeholder =>
    have scope : engine.settings.scope event =
        .ok (.placeholders (Placeholder.Table.build event engine.settings.hostname)) := by
      rw [Settings.scope, mode]
    obtain ⟨⟨tag, tagged⟩, kept, tagUnknown⟩ := Scope.expand_placeholders
      (Placeholder.Table.build event engine.settings.hostname) coherent.outputTag
    obtain ⟨⟨values, expanded⟩, unknown⟩ := expandFields_placeholders
      (Placeholder.Table.build event engine.settings.hostname) coherent.fields
    simp only [transform, scope, tagged, kept, expanded, tagUnknown, unknown, missing, mode,
      sources, templates, List.map_cons, List.flatMap_cons, List.map_map, List.flatMap_map]
    rfl
  | expression =>
    cases built : engine.settings.scope event with
    | error error => simp only [transform, built, missing, mode]
    | ok scope =>
      obtain ⟨known, answers, rfl⟩ := Settings.bindings_of_expression mode built
      obtain ⟨⟨after, later, kept⟩, tagUnknown⟩ :=
        Scope.expand_bindings_unknown engine.settings engine.outputTag known answers
      have unknown := expandFields_bindings_unknown engine.settings after later engine.fields
      simp only [transform, built, missing, mode, kept, tagUnknown, unknown]
      cases ((Scope.bindings known answers).expand engine.settings engine.outputTag).outcome with
      | error error => rfl
      | ok tag =>
        dsimp only
        cases (expandFields engine.settings (.bindings after later) engine.fields).outcome with
        | error error => rfl
        | ok values => rfl

end Engine

namespace Stream

variable {σ : Type} {engine : Engine}

/-! ## Requests -/

/-- What an engine can be asked for. Each request that hands events on names their receiver. -/
inductive Request (σ : Type) where
  | compileAll
  | transform (event : Event)
  | process (receiver : Receiver σ) (event : Event)
  | processAll (receiver : Receiver σ) (events : List Event)
  | stream (receiver : Receiver σ) (clock : Nat → Int) (stops : Nat → Bool) (ended : Bool)
    (bytes : List UInt8)

def Drive.compileAll (drive : Drive σ) : Drive σ :=
  { drive with engine := drive.engine.compileAll.2 }

def Drive.transform [Host] (drive : Drive σ) (event : Event) : Drive σ :=
  let transformation := drive.engine.transform event
  { drive with
    engine := transformation.engine
    metrics := Engine.countUnknown transformation.unknown drive.metrics
    notices := drive.notices ++ Engine.unknownNotices event transformation.unknown }

def Drive.processAll [Host] (receiver : Receiver σ) (drive : Drive σ) (events : List Event) :
    Drive σ :=
  events.foldl (Drive.process receiver) drive

def Drive.serve [Host] (drive : Drive σ) : Request σ → Drive σ
  | .compileAll => drive.compileAll
  | .transform event => drive.transform event
  | .process receiver event => drive.process receiver event
  | .processAll receiver events => drive.processAll receiver events
  | .stream receiver clock stops ended bytes =>
    (driveOver receiver clock stops drive ended bytes).1

/-- Processing several events hands over, counts and learns what `Engine.processAll` says. -/
theorem Drive.processAll_eq [Host] (receiver : Receiver σ) (drive : Drive σ) (events : List Event) :
    let batch := drive.engine.processAll drive.metrics events
    (drive.processAll receiver events).engine = batch.engine ∧
      (drive.processAll receiver events).metrics = batch.metrics ∧
      (drive.processAll receiver events).sink =
        (receiver.emitAll drive.sink batch.emitted).1 := by
  induction events generalizing drive with
  | nil => exact ⟨rfl, rfl, rfl⟩
  | cons event rest ih =>
    obtain ⟨engine, metrics, sink⟩ := ih (drive.process receiver event)
    refine ⟨engine, metrics, ?_⟩
    rw [Engine.processAll, Receiver.emitAll_append]
    exact sink

theorem Drive.handles_processAll [Host] {drive : Drive σ} (receiver : Receiver σ)
    (coherent : engine.Coherent) (continues : drive.engine.Continues engine) (events : List Event) :
    drive.Handles receiver engine events [] (drive.processAll receiver events) := by
  induction events generalizing drive with
  | nil => exact .refl continues
  | cons event rest ih =>
    have first : drive.Handles receiver engine [event] [] (drive.process receiver event) :=
      handles_process coherent continues event
    exact first.trans (ih first.continues)

namespace Request

/-- The events that are received. -/
def received : Request σ → List Event
  | .compileAll => []
  | .transform _ => []
  | .process _ event => [event]
  | .processAll _ events => events
  | .stream _ clock stops ended bytes =>
    (handledLines stops 1 (linesOf ended bytes)).filterMap (eventAt? clock)

/-- The events that are transformed: those that are received and those that are only transformed. -/
def transformed : Request σ → List Event
  | .transform event => [event]
  | request => request.received

/-- The numbers of the lines that do not decode. Only a stream has lines. -/
def malformed : Request σ → List Nat
  | .stream _ _ stops ended bytes =>
    (handledLines stops 1 (linesOf ended bytes)).filterMap malformedAt?
  | _ => []

/-- The state of the receiver once events have been handed to it. -/
def handOver (state : σ) (events : List Event) : Request σ → σ
  | .compileAll => state
  | .transform _ => state
  | .process receiver _ => (receiver.emitAll state events).1
  | .processAll receiver _ => (receiver.emitAll state events).1
  | .stream receiver _ _ _ _ => (receiver.emitAll state events).1

end Request

/-- What a request to an engine does: the events that it receives come out as the engine transforms
them from the start, and the counters grow by what the request holds. -/
structure Drive.Accounts [Host] (engine : Engine) (request : Request σ) (before after : Drive σ) :
    Prop where
  continues : after.engine.Continues engine
  sink : after.sink = request.handOver before.sink (engine.reformed request.received)
  metrics : after.metrics = { engine.tally before.metrics request.received with
    unknownPlaceholders :=
      before.metrics.unknownPlaceholders + (request.transformed.flatMap engine.missing).length
    invalidInput := before.metrics.invalidInput + request.malformed.length }

theorem Drive.Handles.counted [Host] {receiver : Receiver σ} {events : List Event}
    {malformed : List Nat} {before after : Drive σ} (coherent : engine.Coherent)
    (handles : before.Handles receiver engine events malformed after) :
    after.metrics = { engine.tally before.metrics events with
      unknownPlaceholders :=
        before.metrics.unknownPlaceholders + (events.flatMap engine.missing).length
      invalidInput := before.metrics.invalidInput + malformed.length } := by
  have unknown : (fun event => (engine.transform event).unknown) = engine.missing :=
    funext coherent.transform_unknown
  rw [handles.metrics, Engine.tally, unknown]

/-- One request. -/
theorem Drive.accounts_serve [Host] {drive : Drive σ} (coherent : engine.Coherent)
    (continues : drive.engine.Continues engine) (request : Request σ) :
    drive.Accounts engine request (drive.serve request) := by
  cases request with
  | compileAll => exact ⟨continues.coherent.continues_compileAll.trans continues, rfl, rfl⟩
  | transform event =>
    refine ⟨(continues.coherent.continues_transform event).trans continues, rfl, ?_⟩
    have unknown := (continues.transform_eq coherent event).2.1
    have found := unknown.trans (coherent.transform_unknown event)
    simp [serve, transform, Request.received, Request.transformed, Request.malformed,
      Engine.countUnknown, found]
  | process receiver event =>
    have handles : drive.Handles receiver engine [event] [] (drive.process receiver event) :=
      handles_process coherent continues event
    exact ⟨handles.continues, handles.sink, handles.counted coherent⟩
  | processAll receiver events =>
    have handles := handles_processAll receiver coherent continues events
    exact ⟨handles.continues, handles.sink, handles.counted coherent⟩
  | stream receiver clock stops ended bytes =>
    have handles := handles_handledLines receiver clock stops coherent drive continues 1
      (linesOf ended bytes)
    exact ⟨handles.continues, handles.sink, handles.counted coherent⟩

namespace Drive.Accounts

variable {request : Request σ} {before after : Drive σ}

theorem emitted [Host] (accounts : before.Accounts engine request after) :
    after.metrics.emitted =
      before.metrics.emitted + (engine.reformed request.received).length := by
  rw [accounts.metrics, Engine.length_reformed]
  rfl

theorem dropped_of_placeholder [Host] (accounts : before.Accounts engine request after)
    (mode : engine.settings.mode = .placeholder) :
    after.metrics.dropped = before.metrics.dropped := by
  have none : (request.received.countP fun event =>
      !(engine.transform event).outcome.isOk) = 0 := by
    rw [List.countP_eq_zero]
    intro event _
    obtain ⟨out, succeeded⟩ := Engine.transform_of_placeholder mode event
    rw [succeeded]
    exact Bool.false_ne_true
  rw [accounts.metrics]
  exact congrArg (before.metrics.dropped + ·) none

theorem unknown_of_expression [Host] (accounts : before.Accounts engine request after)
    (mode : engine.settings.mode = .expression) :
    after.metrics.unknownPlaceholders = before.metrics.unknownPlaceholders := by
  have none : engine.missing = fun _ => [] := by
    funext event
    rw [Engine.missing, mode]
  rw [accounts.metrics, none]
  simp

/-- One event that is processed comes out and is handed over, or is dropped and is not. -/
theorem of_process [Host] {receiver : Receiver σ} {event : Event}
    (accounts : before.Accounts engine (.process receiver event) after) :
    after.metrics.received = before.metrics.received + 1 ∧
      match (engine.transform event).outcome with
      | .ok out => after.sink = (receiver.emit before.sink out).1 ∧
        after.metrics.emitted = before.metrics.emitted + 1 ∧
        after.metrics.dropped = before.metrics.dropped
      | .error _ => after.sink = before.sink ∧
        after.metrics.emitted = before.metrics.emitted ∧
        after.metrics.dropped = before.metrics.dropped + 1 := by
  have handed : after.sink = (receiver.emitAll before.sink (engine.reformed [event])).1 :=
    accounts.sink
  rw [Engine.reformed_singleton] at handed
  rw [accounts.metrics]
  refine ⟨rfl, ?_⟩
  cases outcome : (engine.transform event).outcome with
  | ok out =>
    rw [outcome] at handed
    exact ⟨handed, Engine.tally_of_ok outcome before.metrics⟩
  | error failure =>
    rw [outcome] at handed
    exact ⟨handed, Engine.tally_of_error outcome before.metrics⟩

end Drive.Accounts

/-! ## Several engines -/

/-- Engines that share their counters, with the state of the receivers of their events and what has
been reported. -/
structure Station (ι σ : Type) where
  engines : ι → Engine
  metrics : Metrics
  sink : σ
  notices : List Notice

variable {ι : Type}

def Station.drive (station : Station ι σ) (asked : ι) : Drive σ :=
  ⟨station.engines asked, station.metrics, station.sink, station.notices⟩

variable [DecidableEq ι]

/-- Makes a request to one of the engines. -/
def Station.serve [Host] (station : Station ι σ) (asked : ι) (request : Request σ) : Station ι σ :=
  let after := (station.drive asked).serve request
  ⟨Function.update station.engines asked after.engine, after.metrics, after.sink, after.notices⟩

def Station.serveAll [Host] (station : Station ι σ) (requests : List (ι × Request σ)) :
    Station ι σ :=
  requests.foldl (fun station made => station.serve made.1 made.2) station

/-- Each engine is a later state of the one that was built, and each event that was received has
come out or has been dropped. -/
structure Station.Accounted (built : ι → Engine) (station : Station ι σ) : Prop where
  continues : ∀ asked, (station.engines asked).Continues (built asked)
  balanced : station.metrics.received = station.metrics.emitted + station.metrics.dropped

section Accounted

variable {built : ι → Engine} {station : Station ι σ}

theorem Station.Accounted.accounts_serve [Host] (coherent : ∀ asked, (built asked).Coherent)
    (accounted : station.Accounted built) (asked : ι) (request : Request σ) :
    (station.drive asked).Accounts (built asked) request
      ((station.serve asked request).drive asked) := by
  have accounts : (station.drive asked).Accounts (built asked) request
      ((station.drive asked).serve request) :=
    Drive.accounts_serve (coherent asked) (accounted.continues asked) request
  have after : (station.serve asked request).drive asked = (station.drive asked).serve request := by
    simp [serve, drive]
  rwa [after]

/-- One request to one of the engines leaves the others as they are. -/
theorem Station.Accounted.serve [Host] (coherent : ∀ asked, (built asked).Coherent)
    (accounted : station.Accounted built) (asked : ι) (request : Request σ) :
    (station.serve asked request).Accounted built := by
  have accounts := accounted.accounts_serve coherent asked request
  constructor
  · intro other
    by_cases same : other = asked
    · subst same
      exact accounts.continues
    · have kept : (station.serve asked request).engines other = station.engines other :=
        Function.update_of_ne same _ _
      rw [kept]
      exact accounted.continues other
  · have metrics := accounts.metrics
    dsimp only [drive] at metrics
    rw [metrics]
    exact (built asked).tally_balanced accounted.balanced request.received

/-- Any requests to any of the engines. -/
theorem Station.Accounted.serveAll [Host] (coherent : ∀ asked, (built asked).Coherent)
    (accounted : station.Accounted built) (requests : List (ι × Request σ)) :
    (station.serveAll requests).Accounted built := by
  induction requests generalizing station with
  | nil => exact accounted
  | cons made rest ih => exact ih (accounted.serve coherent made.1 made.2)

end Accounted

/-- Whatever has been asked of engines that share their counters, every event that was received has
come out or has been dropped, and the next request adds just what it holds. An event that is
processed is received once, and it comes out and is handed over or is dropped and is not. Looking up
placeholders drops nothing, and it counts each placeholder that is not found; scripts count none.
Lines of a stream that do not decode are counted once each, but a line that is no text is not, nor
is any after it. -/
theorem serveAll_accounts [Host] (outputTag : ι → String) (settings : ι → Settings)
    (fields : ι → List (String × String)) (removeKeys : ι → Option RemoveKeys) (renew : ι → Bool)
    (sink : σ) (requests : List (ι × Request σ)) :
    let built := fun asked => Engine.build (outputTag asked) (settings asked) (fields asked)
      (removeKeys asked) (renew asked)
    let before := (Station.mk built .zero sink []).serveAll requests
    before.metrics.received = before.metrics.emitted + before.metrics.dropped ∧
    (∀ asked receiver event,
      let after := before.serve asked (.process receiver event)
      after.metrics.received = before.metrics.received + 1 ∧
      match ((built asked).transform event).outcome with
      | .ok out => after.sink = (receiver.emit before.sink out).1 ∧
        after.metrics.emitted = before.metrics.emitted + 1 ∧
        after.metrics.dropped = before.metrics.dropped
      | .error _ => after.sink = before.sink ∧
        after.metrics.emitted = before.metrics.emitted ∧
        after.metrics.dropped = before.metrics.dropped + 1) ∧
    (∀ asked request,
      let after := before.serve asked request
      after.sink = request.handOver before.sink ((built asked).reformed request.received) ∧
      after.metrics.received = before.metrics.received + request.received.length ∧
      after.metrics.emitted =
        before.metrics.emitted + ((built asked).reformed request.received).length ∧
      ((settings asked).mode = .placeholder → after.metrics.dropped = before.metrics.dropped) ∧
      after.metrics.unknownPlaceholders = before.metrics.unknownPlaceholders +
        (request.transformed.flatMap (built asked).missing).length ∧
      ((settings asked).mode = .expression →
        after.metrics.unknownPlaceholders = before.metrics.unknownPlaceholders) ∧
      after.metrics.invalidInput = before.metrics.invalidInput + request.malformed.length) ∧
    ∀ asked receiver clock stops ended bytes front line rest,
      linesOf ended bytes = front ++ line :: rest → ¬ IsReadable line →
      (before.serve asked (.stream receiver clock stops ended bytes)).metrics.invalidInput =
        before.metrics.invalidInput +
          ((handledLines stops 1 front).filterMap malformedAt?).length := by
  intro built before
  have coherent : ∀ asked, (built asked).Coherent := fun asked => Engine.coherent_build ..
  have start : (Station.mk built .zero sink []).Accounted built :=
    ⟨fun asked => (coherent asked).continues, rfl⟩
  have accounted := start.serveAll coherent requests
  refine ⟨accounted.balanced, ?_, ?_, ?_⟩
  · intro asked receiver event after
    exact (accounted.accounts_serve coherent asked (.process receiver event)).of_process
  · intro asked request after
    have accounts := accounted.accounts_serve coherent asked request
    have metrics := accounts.metrics
    refine ⟨accounts.sink, ?_, accounts.emitted, accounts.dropped_of_placeholder, ?_,
      accounts.unknown_of_expression, ?_⟩
    · exact congrArg Metrics.received metrics
    · exact congrArg Metrics.unknownPlaceholders metrics
    · exact congrArg Metrics.invalidInput metrics
  · intro asked receiver clock stops ended bytes front line rest lines unreadable
    have accounts := accounted.accounts_serve coherent asked
      (.stream receiver clock stops ended bytes)
    have counted := congrArg Metrics.invalidInput accounts.metrics
    rw [Request.malformed, lines, handledLines_unreadable stops 1 front unreadable] at counted
    exact counted

/-- Two engines. The script of one reads a variable that its event lacks, so the event is dropped.
The placeholder of the other is not found, and its event is handed over. The input after that holds
an event between two lines that are none: the first is counted, the other is no text and ends the
run. -/
theorem serveAll_accounts_two :
    let built (scripted : Bool) := Engine.build (if scripted then "$\x7bn\x7d" else "$\x7buser\x7d")
      ⟨if scripted then .expression else .placeholder, "h", true⟩ [] none false
    let before := (Station.mk built .zero [] []).serveAll
      [(true, .process .collector ⟨"a", 0, []⟩), (false, .process .collector ⟨"a", 0, []⟩)]
    let after := before.serve false (.stream .collector (fun _ => 7) never true
      (Text.encodeUtf8 "bad\n[\"b\",1]\n".toList ++ [255, lineBreak]))
    before.metrics = ⟨2, 1, 1, 1, 0⟩ ∧ after.metrics.received = 3 ∧ after.metrics.dropped = 1 ∧
      after.metrics.invalidInput = 1 := by
  have all := serveAll_accounts
    (fun scripted => if scripted then "$\x7bn\x7d" else "$\x7buser\x7d")
    (fun scripted => ⟨if scripted then .expression else .placeholder, "h", true⟩) (fun _ => [])
    (fun _ => none) (fun _ => false) []
    [(true, .process .collector ⟨"a", 0, []⟩), (false, .process .collector ⟨"a", 0, []⟩)]
  -- Both with their abbreviations unfolded, or comparing them would run the engines.
  dsimp only at all ⊢
  obtain ⟨_, _, next, _⟩ := all
  obtain ⟨_, grown, _, dropped, _, _, invalid⟩ := next false
    (.stream .collector (fun _ => 7) never true
      (Text.encodeUtf8 "bad\n[\"b\",1]\n".toList ++ [255, lineBreak]))
  have counted : ((Station.mk (fun scripted : Bool =>
        Engine.build (if scripted then "$\x7bn\x7d" else "$\x7buser\x7d")
          ⟨if scripted then .expression else .placeholder, "h", true⟩ [] none false)
        .zero [] []).serveAll [(true, .process .collector ⟨"a", 0, []⟩),
          (false, .process .collector ⟨"a", 0, []⟩)]).metrics = ⟨2, 1, 1, 1, 0⟩ := by
    cbv
  have handled : handledLines never 1 (linesOf true
      (Text.encodeUtf8 "bad\n[\"b\",1]\n".toList ++ [255, lineBreak])) =
        [("bad".toList, 1), ("[\"b\",1]".toList, 2)] := by
    cbv
  have received : [("bad".toList, 1), ("[\"b\",1]".toList, 2)].filterMap (eventAt? fun _ => 7) =
      [⟨"b", 1, []⟩] := by
    cbv
  have malformed : [("bad".toList, 1), ("[\"b\",1]".toList, 2)].filterMap malformedAt? = [1] := by
    cbv
  rw [Request.received, handled, received, counted] at grown
  rw [Request.malformed, handled, malformed, counted] at invalid
  exact ⟨counted, grown, (dropped rfl).trans (congrArg Metrics.dropped counted), invalid⟩

end Stream

end Recast
