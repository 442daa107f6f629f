import Recast.Proofs.History

set_option autoImplicit false

/-!
# What an engine counts

Each event is received once, comes out or is dropped, and each placeholder that it did not find is
counted. The counts do not depend on what the engine remembers of its templates.
-/

namespace Recast.Engine

/-- The counters after events, each of which is transformed on its own. -/
def tally [Host] (engine : Engine) (metrics : Metrics) (events : List Event) : Metrics :=
  { metrics with
    received := metrics.received + events.length
    emitted := metrics.emitted + events.countP fun event => (engine.transform event).outcome.isOk
    dropped := metrics.dropped + events.countP fun event => !(engine.transform event).outcome.isOk
    unknownPlaceholders := metrics.unknownPlaceholders +
      (events.flatMap fun event => (engine.transform event).unknown).length }

@[simp] theorem tally_nil [Host] (engine : Engine) (metrics : Metrics) :
    engine.tally metrics [] = metrics := rfl

theorem tally_append [Host] (engine : Engine) (metrics : Metrics) (before after : List Event) :
    engine.tally metrics (before ++ after) =
      engine.tally (engine.tally metrics before) after := by
  simp only [tally, List.length_append, List.countP_append, List.flatMap_append, Nat.add_assoc]

theorem tally_of_ok [Host] {engine : Engine} {event out : Event}
    (succeeded : (engine.transform event).outcome = .ok out) (metrics : Metrics) :
    (engine.tally metrics [event]).emitted = metrics.emitted + 1 ∧
      (engine.tally metrics [event]).dropped = metrics.dropped := by
  simp [tally, succeeded, Except.isOk, Except.toBool]

theorem tally_of_error [Host] {engine : Engine} {event : Event} {failure : EventError}
    (failed : (engine.transform event).outcome = .error failure) (metrics : Metrics) :
    (engine.tally metrics [event]).emitted = metrics.emitted ∧
      (engine.tally metrics [event]).dropped = metrics.dropped + 1 := by
  simp [tally, failed, Except.isOk, Except.toBool]

theorem length_reformed [Host] (engine : Engine) (events : List Event) :
    (engine.reformed events).length =
      events.countP fun event => (engine.transform event).outcome.isOk := by
  rw [reformed, List.length_filterMap_eq_countP]
  congr 1
  funext event
  cases (engine.transform event).outcome <;> rfl

/-- Each event that is received comes out or is dropped. -/
theorem tally_balanced [Host] (engine : Engine) {metrics : Metrics}
    (balanced : metrics.received = metrics.emitted + metrics.dropped) (events : List Event) :
    (engine.tally metrics events).received =
      (engine.tally metrics events).emitted + (engine.tally metrics events).dropped := by
  have parts := List.length_eq_countP_add_countP
    (fun event => (engine.transform event).outcome.isOk) (l := events)
  simp only [Bool.not_eq_true, Bool.decide_eq_false] at parts
  simp only [tally]
  omega

theorem Continues.tally_eq [Host] {later earlier : Engine} (continues : later.Continues earlier)
    (coherent : earlier.Coherent) (metrics : Metrics) (events : List Event) :
    later.tally metrics events = earlier.tally metrics events := by
  have outcome : ∀ event, (later.transform event).outcome = (earlier.transform event).outcome :=
    fun event => (continues.transform_eq coherent event).1
  have unknown : ∀ event, (later.transform event).unknown = (earlier.transform event).unknown :=
    fun event => (continues.transform_eq coherent event).2.1
  simp only [tally, outcome, unknown]

theorem process_metrics [Host] (engine : Engine) (metrics : Metrics) (event : Event) :
    (engine.process metrics event).metrics = engine.tally metrics [event] := by
  simp only [process, tally]
  cases outcome : (engine.transform event).outcome with
  | ok reformed => simp [countUnknown, outcome, Except.isOk, Except.toBool]
  | error error => simp [countUnknown, outcome, Except.isOk, Except.toBool]

end Recast.Engine
