import Recast.Proofs.Caching

set_option autoImplicit false

/-!
# Engines with a history

What an engine learns about its templates while it works is never more than what their sources
give. So an event is transformed as by an engine that has just been built, whatever events came
before it and however they failed.
-/

namespace Recast

namespace FieldMap

/-- The fields with templates of which nothing is known. -/
def bare (fields : FieldMap) : FieldMap :=
  Assoc.mapValues Template.bare fields

/-- What is known of every template is what its source gives. -/
def Coherent (typecast : Bool) (fields : FieldMap) : Prop :=
  ∀ field ∈ fields, field.2.Coherent typecast

@[simp] theorem bare_nil : bare [] = [] := rfl

@[simp] theorem bare_cons (key : String) (template : Template) (rest : FieldMap) :
    bare ((key, template) :: rest) = (key, template.bare) :: bare rest := rfl

theorem coherent_cons {typecast : Bool} {key : String} {template : Template} {rest : FieldMap} :
    Coherent typecast ((key, template) :: rest) ↔
      template.Coherent typecast ∧ Coherent typecast rest :=
  List.forall_mem_cons

theorem bare_insert {fields : FieldMap} (fresh : fields.bare = fields) (key source : String) :
    (fields.insert key source).bare = fields.insert key source := by
  induction fields with
  | nil => rfl
  | cons field rest ih =>
    obtain ⟨name, template⟩ := field
    obtain ⟨templateFresh, restFresh⟩ := List.cons.inj fresh
    by_cases same : name = key
    · simp only [insert, Assoc.insert, same, if_true, bare_cons, Template.bare_ofSource,
        List.cons.injEq, true_and]
      exact restFresh
    · have inner := ih restFresh
      simp only [insert] at inner
      simp only [insert, Assoc.insert, same, if_false, bare_cons, inner, List.cons.injEq, and_true]
      exact templateFresh

theorem bare_ofPairs (pairs : List (String × String)) : (ofPairs pairs).bare = ofPairs pairs := by
  have step : ∀ fields : FieldMap, fields.bare = fields →
      (pairs.foldl (fun fields pair => insert fields pair.1 pair.2) fields).bare =
        pairs.foldl (fun fields pair => insert fields pair.1 pair.2) fields := by
    induction pairs with
    | nil => exact fun _ fresh => fresh
    | cons pair rest ih => exact fun fields fresh => ih _ (bare_insert fresh pair.1 pair.2)
  exact step [] rfl

theorem coherent_bare (typecast : Bool) (fields : FieldMap) : fields.bare.Coherent typecast := by
  intro field member
  obtain ⟨original, _, rfl⟩ := List.mem_map.mp member
  exact Template.coherent_ofSource typecast original.2.source

end FieldMap

@[simp] theorem bare_expandFields (settings : Settings) (scope : Scope) (fields : FieldMap) :
    (expandFields settings scope fields).fields.bare = fields.bare := by
  induction fields generalizing scope with
  | nil => rfl
  | cons field rest ih =>
    obtain ⟨key, template⟩ := field
    have kept := scope.bare_expand settings template
    unfold expandFields
    cases failed : (scope.expand settings template).outcome with
    | error error => simp [failed, kept]
    | ok value => simp [failed, kept, ih]

theorem coherent_expandFields {settings : Settings} {fields : FieldMap} (scope : Scope)
    (coherent : fields.Coherent settings.typecast) :
    (expandFields settings scope fields).fields.Coherent settings.typecast := by
  induction fields generalizing scope with
  | nil => exact coherent
  | cons field rest ih =>
    obtain ⟨key, template⟩ := field
    obtain ⟨first, others⟩ := FieldMap.coherent_cons.mp coherent
    have kept := scope.coherent_expand first
    unfold expandFields
    cases failed : (scope.expand settings template).outcome with
    | error error =>
      simp only [failed]
      exact FieldMap.coherent_cons.mpr ⟨kept, others⟩
    | ok value =>
      simp only [failed]
      exact FieldMap.coherent_cons.mpr ⟨kept, ih _ others⟩

theorem expandFields_eq_of_coherent {settings : Settings} {fields : FieldMap} (scope : Scope)
    (coherent : fields.Coherent settings.typecast) :
    (expandFields settings scope fields).outcome =
        (expandFields settings scope fields.bare).outcome ∧
      (expandFields settings scope fields).unknown =
        (expandFields settings scope fields.bare).unknown ∧
      (expandFields settings scope fields).printed =
        (expandFields settings scope fields.bare).printed := by
  induction fields generalizing scope with
  | nil => exact ⟨rfl, rfl, rfl⟩
  | cons field rest ih =>
    obtain ⟨key, template⟩ := field
    obtain ⟨first, others⟩ := FieldMap.coherent_cons.mp coherent
    have same := scope.expand_eq_of_coherent first
    have outcome := congrArg Expansion.outcome same
    have after := congrArg Expansion.scope same
    have unknown := congrArg Expansion.unknown same
    have effects := congrArg Expansion.effects same
    dsimp only at outcome after unknown effects
    simp only [FieldMap.bare_cons, expandFields, outcome, after, unknown, effects]
    cases (scope.expand settings template.bare).outcome with
    | error error => exact ⟨rfl, rfl, rfl⟩
    | ok value =>
      obtain ⟨sameOutcome, sameUnknown, samePrinted⟩ :=
        ih (scope.expand settings template.bare).scope others
      simp only [sameOutcome, sameUnknown, samePrinted, and_self]

namespace Engine

/-- The engine as it is when it has just been built. -/
def bare (engine : Engine) : Engine :=
  { engine with outputTag := engine.outputTag.bare, fields := engine.fields.bare }

/-- What is known of every template is what its source gives under the settings. -/
structure Coherent (engine : Engine) : Prop where
  outputTag : engine.outputTag.Coherent engine.settings.typecast
  fields : engine.fields.Coherent engine.settings.typecast

/-- A later state of an engine: it may know more of its templates, and nothing that is wrong. -/
structure Continues (later earlier : Engine) : Prop where
  bare_eq : later.bare = earlier.bare
  coherent : later.Coherent

theorem coherent_bare (engine : Engine) : engine.bare.Coherent :=
  ⟨Template.coherent_ofSource _ _, FieldMap.coherent_bare _ _⟩

theorem bare_ofSpec {spec : EngineSpec} (fresh : spec.fields.bare = spec.fields) :
    (ofSpec spec).bare = ofSpec spec := by
  unfold bare ofSpec
  rw [fresh]
  rfl

theorem Coherent.continues {engine : Engine} (coherent : engine.Coherent) :
    engine.Continues engine :=
  ⟨rfl, coherent⟩

theorem Continues.trans {last later earlier : Engine} (second : last.Continues later)
    (first : later.Continues earlier) : last.Continues earlier :=
  ⟨second.bare_eq.trans first.bare_eq, second.coherent⟩

/-- Transforming leaves a later state of the engine, wherever it fails. -/
theorem Coherent.continues_transform [Host] {engine : Engine} (coherent : engine.Coherent)
    (event : Event) : (engine.transform event).engine.Continues engine := by
  unfold transform
  cases engine.settings.scope event with
  | error error => exact coherent.continues
  | ok scope =>
    have tagBare := scope.bare_expand engine.settings engine.outputTag
    have tagKept := scope.coherent_expand coherent.outputTag
    dsimp only
    cases (scope.expand engine.settings engine.outputTag).outcome with
    | error error => exact ⟨by simp [bare, tagBare], tagKept, coherent.fields⟩
    | ok tagValue =>
      have next := (scope.expand engine.settings engine.outputTag).scope
      have fieldsBare := bare_expandFields engine.settings
        (scope.expand engine.settings engine.outputTag).scope engine.fields
      have fieldsKept := coherent_expandFields
        (scope.expand engine.settings engine.outputTag).scope coherent.fields
      dsimp only
      cases (expandFields engine.settings (scope.expand engine.settings engine.outputTag).scope
          engine.fields).outcome with
      | error error => exact ⟨by simp [bare, tagBare, fieldsBare], tagKept, fieldsKept⟩
      | ok values => exact ⟨by simp [bare, tagBare, fieldsBare], tagKept, fieldsKept⟩

/-- A coherent engine transforms an event as one that has just been built. -/
theorem Coherent.transform_eq [Host] {engine : Engine} (coherent : engine.Coherent)
    (event : Event) :
    (engine.transform event).outcome = (engine.bare.transform event).outcome ∧
      (engine.transform event).unknown = (engine.bare.transform event).unknown ∧
      (engine.transform event).printed = (engine.bare.transform event).printed := by
  simp only [transform, bare]
  cases engine.settings.scope event with
  | error error => exact ⟨rfl, rfl, rfl⟩
  | ok scope =>
    have same := scope.expand_eq_of_coherent coherent.outputTag
    have outcome := congrArg Expansion.outcome same
    have after := congrArg Expansion.scope same
    have unknown := congrArg Expansion.unknown same
    have effects := congrArg Expansion.effects same
    dsimp only at outcome after unknown effects ⊢
    simp only [outcome, after, unknown, effects]
    generalize scope.expand engine.settings engine.outputTag.bare = tag
    cases tag.outcome with
    | error error => exact ⟨rfl, rfl, rfl⟩
    | ok tagValue =>
      obtain ⟨fieldsOutcome, fieldsUnknown, fieldsPrinted⟩ :=
        expandFields_eq_of_coherent tag.scope coherent.fields
      simp only [fieldsOutcome, fieldsUnknown, fieldsPrinted]
      cases (expandFields engine.settings tag.scope engine.fields.bare).outcome with
      | error error => exact ⟨rfl, rfl, rfl⟩
      | ok values => exact ⟨rfl, rfl, rfl⟩

/-- Two states of one engine transform an event alike. -/
theorem Continues.transform_eq [Host] {later earlier : Engine}
    (continues : later.Continues earlier) (coherent : earlier.Coherent) (event : Event) :
    (later.transform event).outcome = (earlier.transform event).outcome ∧
      (later.transform event).unknown = (earlier.transform event).unknown ∧
      (later.transform event).printed = (earlier.transform event).printed := by
  obtain ⟨laterOutcome, laterUnknown, laterPrinted⟩ := continues.coherent.transform_eq event
  obtain ⟨earlierOutcome, earlierUnknown, earlierPrinted⟩ := coherent.transform_eq event
  rw [laterOutcome, laterUnknown, laterPrinted, earlierOutcome, earlierUnknown, earlierPrinted,
    continues.bare_eq]
  exact ⟨rfl, rfl, rfl⟩

theorem bare_compileFields (settings : Settings) (fields : FieldMap) :
    (compileFields settings fields).2.bare = fields.bare := by
  induction fields with
  | nil => rfl
  | cons field rest ih =>
    obtain ⟨key, template⟩ := field
    have kept := settings.bare_compile template
    unfold compileFields
    cases compiled : settings.compile template with
    | mk outcome after =>
      rw [compiled] at kept
      cases outcome <;> simp_all

theorem coherent_compileFields {settings : Settings} {fields : FieldMap}
    (coherent : fields.Coherent settings.typecast) :
    (compileFields settings fields).2.Coherent settings.typecast := by
  induction fields with
  | nil => exact coherent
  | cons field rest ih =>
    obtain ⟨key, template⟩ := field
    obtain ⟨first, others⟩ := FieldMap.coherent_cons.mp coherent
    have kept := Settings.coherent_compile first
    unfold compileFields
    cases compiled : settings.compile template with
    | mk outcome after =>
      rw [compiled] at kept
      cases outcome with
      | error error => exact FieldMap.coherent_cons.mpr ⟨kept, others⟩
      | ok done => exact FieldMap.coherent_cons.mpr ⟨kept, ih others⟩

/-- Compiling every template leaves a later state of the engine, wherever it fails. -/
theorem Coherent.continues_compileAll {engine : Engine} (coherent : engine.Coherent) :
    engine.compileAll.2.Continues engine := by
  have tagBare := engine.settings.bare_compile engine.outputTag
  have tagKept := Settings.coherent_compile coherent.outputTag
  unfold compileAll
  cases compiled : engine.settings.compile engine.outputTag with
  | mk outcome after =>
    rw [compiled] at tagBare tagKept
    cases outcome with
    | error error => exact ⟨by simp_all [bare], tagKept, coherent.fields⟩
    | ok done =>
      have fieldsBare := bare_compileFields engine.settings engine.fields
      exact ⟨by simp_all [bare], tagKept, coherent_compileFields coherent.fields⟩

theorem process_eq [Host] (engine : Engine) (metrics : Metrics) (event : Event) :
    (engine.process metrics event).emitted = (engine.transform event).outcome.toOption ∧
      (engine.process metrics event).engine = (engine.transform event).engine := by
  simp only [process]
  cases (engine.transform event).outcome with
  | ok reformed => exact ⟨rfl, rfl⟩
  | error error => exact ⟨rfl, rfl⟩

theorem Coherent.continues_process [Host] {engine : Engine} (coherent : engine.Coherent)
    (metrics : Metrics) (event : Event) :
    (engine.process metrics event).engine.Continues engine := by
  rw [(engine.process_eq metrics event).2]
  exact coherent.continues_transform event

theorem Coherent.continues_processAll [Host] {engine : Engine} (coherent : engine.Coherent)
    (metrics : Metrics) (events : List Event) :
    (engine.processAll metrics events).engine.Continues engine := by
  induction events generalizing engine metrics with
  | nil => exact coherent.continues
  | cons event rest ih =>
    have first := coherent.continues_process metrics event
    exact (ih first.coherent _).trans first

/-- What transforming gives for every event that succeeds, in order. -/
def reformed [Host] (engine : Engine) (events : List Event) : List Event :=
  events.filterMap fun event => (engine.transform event).outcome.toOption

theorem reformed_append [Host] (engine : Engine) (before after : List Event) :
    engine.reformed (before ++ after) = engine.reformed before ++ engine.reformed after :=
  List.filterMap_append

theorem reformed_singleton [Host] (engine : Engine) (event : Event) :
    engine.reformed [event] = (engine.transform event).outcome.toOption.toList := by
  cases found : (engine.transform event).outcome.toOption <;> simp [reformed, found]

theorem Continues.reformed_eq [Host] {later earlier : Engine} (continues : later.Continues earlier)
    (coherent : earlier.Coherent) (events : List Event) :
    later.reformed events = earlier.reformed events := by
  unfold reformed
  congr 1
  funext event
  rw [(continues.transform_eq coherent event).1]

/-- Events that are processed one after another come out as each of them does alone. -/
theorem Coherent.processAll_eq [Host] {engine : Engine} (coherent : engine.Coherent)
    (metrics : Metrics) (events : List Event) :
    (engine.processAll metrics events).emitted = engine.reformed events ∧
      (engine.processAll metrics events).count = (engine.reformed events).length := by
  -- The engine changes with every event, so the rest is told of a later state of it.
  induction events generalizing engine metrics with
  | nil => exact ⟨rfl, rfl⟩
  | cons event rest ih =>
    obtain ⟨emitted, _⟩ := engine.process_eq metrics event
    have first := coherent.continues_process metrics event
    obtain ⟨others, count⟩ := ih first.coherent (engine.process metrics event).metrics
    rw [first.reformed_eq coherent] at others count
    simp only [processAll, emitted, others, count, reformed, List.filterMap_cons]
    cases (engine.transform event).outcome with
    | ok reformed => exact ⟨rfl, rfl⟩
    | error error => exact ⟨rfl, rfl⟩

/-- A call on an engine, on the machine that it runs on then. The counters that it is made with may
have any values. -/
inductive Call where
  | compileAll
  | transform [host : Host] (event : Event)
  | process [host : Host] (metrics : Metrics) (event : Event)
  | processAll [host : Host] (metrics : Metrics) (events : List Event)

/-- The engine after a call. -/
def call (engine : Engine) : Call → Engine
  | .compileAll => engine.compileAll.2
  | @Call.transform _ event => (engine.transform event).engine
  | @Call.process _ metrics event => (engine.process metrics event).engine
  | @Call.processAll _ metrics events => (engine.processAll metrics events).engine

/-- The engine after calls in order. -/
def after (engine : Engine) (calls : List Call) : Engine :=
  calls.foldl call engine

theorem Coherent.continues_call {engine : Engine} (coherent : engine.Coherent) (made : Call) :
    (engine.call made).Continues engine := by
  cases made with
  | compileAll => exact coherent.continues_compileAll
  | transform event => exact coherent.continues_transform event
  | process metrics event => exact coherent.continues_process metrics event
  | processAll metrics events => exact coherent.continues_processAll metrics events

theorem Coherent.continues_after {engine : Engine} (coherent : engine.Coherent)
    (calls : List Call) : (engine.after calls).Continues engine := by
  induction calls generalizing engine with
  | nil => exact coherent.continues
  | cons made rest ih =>
    have first := coherent.continues_call made
    exact (ih first.coherent).trans first

/-- The engine built from a tag template, settings and pairs of keys and templates. -/
def build (outputTag : String) (settings : Settings) (fields : List (String × String))
    (removeKeys : Option RemoveKeys) (renew : Bool) : Engine :=
  ofSpec ⟨outputTag, settings, FieldMap.ofPairs fields, removeKeys, renew⟩

theorem coherent_build (outputTag : String) (settings : Settings)
    (fields : List (String × String)) (removeKeys : Option RemoveKeys) (renew : Bool) :
    (build outputTag settings fields removeKeys renew).Coherent := by
  have unknown : (build outputTag settings fields removeKeys renew).bare =
      build outputTag settings fields removeKeys renew :=
    bare_ofSpec (FieldMap.bare_ofPairs fields)
  rw [← unknown]
  exact coherent_bare _

theorem nodup_keys_after (outputTag : String) (settings : Settings)
    (fields : List (String × String)) (removeKeys : Option RemoveKeys) (renew : Bool)
    (calls : List Call) :
    (Assoc.keys ((build outputTag settings fields removeKeys renew).after calls).fields).Nodup := by
  have continues :=
    (coherent_build outputTag settings fields removeKeys renew).continues_after calls
  have same := congrArg (fun engine => Assoc.keys engine.fields) continues.bare_eq
  simp only [bare, FieldMap.bare, Assoc.keys_mapValues] at same
  rw [same]
  exact FieldMap.nodup_keys_ofPairs fields

/-- What comes of events that are processed one after another, each on the machine as it is then. -/
def emittedOn (engine : Engine) (metrics : Metrics) : List (Host × Event) → List Event
  | [] => []
  | (host, event) :: rest =>
    let first := @process host engine metrics event
    first.emitted.toList ++ emittedOn first.engine first.metrics rest

/-- Each event comes out as it does alone on its machine. -/
theorem Coherent.emittedOn_eq {engine : Engine} (coherent : engine.Coherent) (metrics : Metrics)
    (runs : List (Host × Event)) :
    engine.emittedOn metrics runs =
      runs.filterMap fun run => (@transform run.1 engine run.2).outcome.toOption := by
  induction runs generalizing engine metrics with
  | nil => rfl
  | cons run rest ih =>
    obtain ⟨host, event⟩ := run
    obtain ⟨emitted, _⟩ := engine.process_eq metrics event
    have first := coherent.continues_process metrics event
    have others := ih first.coherent (engine.process metrics event).metrics
    have same : (fun run : Host × Event =>
        (@transform run.1 (engine.process metrics event).engine run.2).outcome.toOption) =
          fun run => (@transform run.1 engine run.2).outcome.toOption := by
      funext ⟨host, event⟩
      rw [(first.transform_eq coherent event).1]
    rw [same] at others
    simp only [emittedOn, emitted, others, List.filterMap_cons]
    cases (engine.transform event).outcome <;> rfl

/-- An engine with a history is an engine that has just been built, as far as events can tell:
on the same machine each is transformed alike, several of them come out as each does alone and are
counted so, also if the machine answers each of them differently, and one that fails hands over
nothing and leaves the others as they are. -/
theorem results_independent_of_history (outputTag : String) (settings : Settings)
    (fields : List (String × String)) (removeKeys : Option RemoveKeys) (renew : Bool)
    (calls : List Call) (metrics : Metrics) :
    let fresh := build outputTag settings fields removeKeys renew
    let used := fresh.after calls
    (∀ [Host] (event : Event),
      (used.transform event).outcome = (fresh.transform event).outcome ∧
      (used.transform event).unknown = (fresh.transform event).unknown ∧
      (used.transform event).printed = (fresh.transform event).printed) ∧
    (∀ [Host] (events : List Event), (used.processAll metrics events).emitted =
        events.filterMap (fun event => (fresh.transform event).outcome.toOption) ∧
      (used.processAll metrics events).count =
        events.countP fun event => (fresh.transform event).outcome.isOk) ∧
    (∀ runs : List (Host × Event), used.emittedOn metrics runs =
      runs.filterMap fun run => (@transform run.1 fresh run.2).outcome.toOption) ∧
    (∀ [Host] (event : Event) error, (fresh.transform event).outcome = .error error →
      (used.process metrics event).emitted = none ∧
      ∀ before after, (used.processAll metrics (before ++ event :: after)).emitted =
        (used.processAll metrics (before ++ after)).emitted) := by
  intro fresh used
  have coherent : fresh.Coherent := coherent_build outputTag settings fields removeKeys renew
  have continues : used.Continues fresh := coherent.continues_after calls
  have emitted : ∀ [Host] (events : List Event),
      (used.processAll metrics events).emitted = fresh.reformed events := by
    intro _ events
    rw [(continues.coherent.processAll_eq metrics events).1, continues.reformed_eq coherent]
  refine ⟨?_, ?_, ?_, ?_⟩
  · intro _ event
    exact continues.transform_eq coherent event
  · intro _ events
    refine ⟨emitted events, ?_⟩
    rw [(continues.coherent.processAll_eq metrics events).2, continues.reformed_eq coherent,
      reformed, List.length_filterMap_eq_countP]
    congr 1
    funext event
    cases (fresh.transform event).outcome <;> rfl
  · intro runs
    rw [continues.coherent.emittedOn_eq metrics runs]
    congr 1
    funext ⟨host, event⟩
    rw [(continues.transform_eq coherent event).1]
  · intro _ event error failed
    constructor
    · rw [(used.process_eq metrics event).1, (continues.transform_eq coherent event).1, failed]
      rfl
    · intro before after
      rw [emitted, emitted]
      simp [reformed, failed, Except.toOption]

/-- An event past the end of the calendar is dropped by an engine that has compiled everything
before, as by one that has not. -/
theorem results_independent_of_history_past_calendar :
    let fresh := build "out" ⟨.expression, "h", true⟩ [("x", "$\x7bn\x7d")] none false
    let late : Event := ⟨"a", 8210266876800, []⟩
    (fresh.transform late).outcome =
        .error ⟨"a", .evaluation "$\x7btime\x7d" (.timeOutOfRange 8210266876800)⟩ ∧
      ((fresh.after [.compileAll]).process .zero late).emitted = none := by
  intro fresh late
  have failed : (fresh.transform late).outcome =
      .error ⟨"a", .evaluation "$\x7btime\x7d" (.timeOutOfRange 8210266876800)⟩ := rfl
  obtain ⟨_, _, _, dropped⟩ := results_independent_of_history "out" ⟨.expression, "h", true⟩
    [("x", "$\x7bn\x7d")] none false [.compileAll] .zero
  exact ⟨failed, (dropped late _ failed).1⟩

end Engine

end Recast
