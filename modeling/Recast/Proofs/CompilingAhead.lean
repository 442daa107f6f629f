import Mathlib
import Recast.Config
import Recast.Proofs.Counting
import Recast.Proofs.SharedScope

set_option autoImplicit false

/-!
# Compiling ahead

Compiling the templates of an engine before any event tells what events can meet. If all of them
compile, no event fails because of one that does not. If one does not, every event fails, though
perhaps at an earlier template or for another reason.
-/

namespace Recast

/-- A source compiles under settings. No source can keep placeholders from being looked up. -/
def Settings.compiles (settings : Settings) (source : String) : Bool :=
  settings.mode == .placeholder ||
    (Script.compile? (String.ofList (Template.rewrite settings.typecast source.toList))).isSome

/-- The first source that does not compile. -/
def Settings.firstUncompiled? (settings : Settings) (sources : List String) : Option String :=
  sources.find? fun source => !settings.compiles source

variable {settings : Settings}

/-! ## One template -/

theorem Settings.compiles_placeholder (mode : settings.mode = .placeholder) (source : String) :
    settings.compiles source = true := by
  rw [compiles, mode]
  rfl

theorem Settings.compiles_expression (mode : settings.mode = .expression) (source : String) :
    settings.compiles source = (Script.compile?
      (String.ofList (Template.rewrite settings.typecast source.toList))).isSome := by
  rw [compiles, mode]
  rfl

/-- A template whose cache is coherent has a script exactly if its source compiles. -/
theorem Template.Coherent.withScript_error_iff {template : Template}
    (coherent : template.Coherent settings.typecast) (mode : settings.mode = .expression)
    (error : TemplateError) :
    (template.withScript settings.typecast).1 = .error error ↔
      settings.compiles template.source = false ∧ error = .compilation template.source := by
  have unknown : template.bare.script? = none := rfl
  rw [coherent.withScript_eq, settings.compiles_expression mode]
  simp only [withScript, unknown, source_bare]
  cases Script.compile? (String.ofList (rewrite settings.typecast template.source.toList)) with
  | some script => simp
  | none => simp [eq_comm]

theorem Settings.compile_eq {template : Template}
    (coherent : template.Coherent settings.typecast) :
    (settings.compile template).1 =
      if settings.compiles template.source then .ok ()
      else .error (.compilation template.source) := by
  cases mode : settings.mode with
  | placeholder =>
    rw [compiles_placeholder mode, if_pos rfl]
    simp only [compile, mode]
  | expression =>
    have known := coherent.withScript_error_iff mode
    simp only [compile, mode]
    revert known
    cases template.withScript settings.typecast with
    | mk compiled after =>
      intro known
      cases compiled with
      | ok script =>
        have compiles : settings.compiles template.source = true := by
          have nothing := known (.compilation template.source)
          simpa using nothing
        rw [if_pos compiles]
      | error error =>
        obtain ⟨uncompiled, rfl⟩ := (known error).mp rfl
        rw [uncompiled]
        rfl

/-! ## Templates in turn -/

theorem Settings.firstUncompiled?_cons (settings : Settings) (source : String)
    (rest : List String) :
    settings.firstUncompiled? (source :: rest) =
      if settings.compiles source then settings.firstUncompiled? rest else some source := by
  rw [firstUncompiled?, List.find?_cons]
  cases settings.compiles source <;> rfl

/-- Among bindings, a template fails to compile exactly if its source does, whatever the bindings
are by then, and bindings are left. -/
theorem Scope.expand_compilation_iff {template : Template}
    (coherent : template.Coherent settings.typecast) (mode : settings.mode = .expression)
    (known : Script.Bindings) (answers : Nat → Script.Answers) :
    let expansion := (Scope.bindings known answers).expand settings template
    (∀ source, expansion.outcome = .error (.compilation source) ↔
      settings.compiles template.source = false ∧ source = template.source) ∧
    ∃ left later, expansion.scope = .bindings left later := by
  have compilation := coherent.withScript_error_iff mode
  obtain ⟨fails, runs⟩ := expand_bindings settings template known answers
  dsimp only
  cases compiled : (template.withScript settings.typecast).1 with
  | error error =>
    obtain ⟨outcome, scope⟩ := fails error compiled
    refine ⟨fun source => ?_, known, _, scope⟩
    have cause := compilation (.compilation source)
    rw [compiled, Except.error.injEq, TemplateError.compilation.injEq] at cause
    rw [outcome, Except.error.injEq]
    exact cause
  | ok script =>
    obtain ⟨outcome, scope⟩ := runs script compiled
    refine ⟨fun source => ?_, _, _, scope⟩
    have compiles := compilation (.compilation template.source)
    rw [compiled] at compiles
    have notUncompiled : ¬ settings.compiles template.source = false := by simpa using compiles
    rw [outcome]
    cases (script.run (answers 0) known).1 <;> simp [Except.mapError, Except.map, notUncompiled]

theorem expandInTurn_bindings_cons {template : Template}
    (coherent : template.Coherent settings.typecast) (mode : settings.mode = .expression)
    (known : Script.Bindings) (answers : Nat → Script.Answers) (rest : List Template) :
    ∃ outcome left later, expandInTurn settings (.bindings known answers) (template :: rest) =
        outcome :: expandInTurn settings (.bindings left later) rest ∧
      ∀ source, outcome = .error (.compilation source) ↔
        settings.compiles template.source = false ∧ source = template.source := by
  obtain ⟨compilation, left, later, scope⟩ :=
    Scope.expand_compilation_iff coherent mode known answers
  refine ⟨_, left, later, ?_, compilation⟩
  rw [expandInTurn, scope]

/-- Of templates that are expanded in turn, those that do not compile fail to, and no others. -/
theorem compilation_mem_expandInTurn {templates : List Template}
    (coherent : ∀ template ∈ templates, template.Coherent settings.typecast)
    (mode : settings.mode = .expression) (known : Script.Bindings)
    (answers : Nat → Script.Answers) (source : String) :
    .error (.compilation source) ∈ expandInTurn settings (.bindings known answers) templates ↔
      source ∈ templates.map Template.source ∧ settings.compiles source = false := by
  induction templates generalizing known answers with
  | nil => simp [expandInTurn]
  | cons template rest ih =>
    obtain ⟨first, others⟩ := List.forall_mem_cons.mp coherent
    obtain ⟨outcome, left, later, expanded, compilation⟩ :=
      expandInTurn_bindings_cons first mode known answers rest
    rw [expanded, List.mem_cons, ih others left later, eq_comm, compilation, List.map_cons,
      List.mem_cons]
    constructor
    · rintro (⟨fails, rfl⟩ | ⟨member, fails⟩)
      · exact ⟨Or.inl rfl, fails⟩
      · exact ⟨Or.inr member, fails⟩
    · rintro ⟨rfl | member, fails⟩
      · exact Or.inl ⟨fails, rfl⟩
      · exact Or.inr ⟨member, fails⟩

theorem expandInTurn_placeholders (settings : Settings) (table : Placeholder.Table)
    (templates : List Template) :
    ∃ values : List Json.Value,
      expandInTurn settings (.placeholders table) templates = values.map .ok := by
  induction templates with
  | nil => exact ⟨[], rfl⟩
  | cons template rest ih =>
    obtain ⟨values, expanded⟩ := ih
    refine ⟨(expandPieces settings.typecast table template.withPieces.1).1 :: values, ?_⟩
    rw [List.map_cons, ← expanded]
    rfl

theorem Settings.bindings_of_expression [Host] {event : Event} {scope : Scope}
    (mode : settings.mode = .expression) (built : settings.scope event = .ok scope) :
    ∃ known answers, scope = .bindings known answers := by
  rw [Settings.scope, mode] at built
  dsimp only at built
  split at built
  next =>
    cases built
    exact ⟨_, _, rfl⟩
  next => cases built

theorem Settings.scope_ne_compilation [Host] (settings : Settings) (event : Event)
    (source : String) :
    settings.scope event ≠ .error (.compilation source) := by
  unfold Settings.scope
  split
  next => nofun
  next =>
    split
    next => nofun
    next => nofun

theorem firstError?_of_mem {ε α : Type} {outcomes : List (Except ε α)} {error : ε}
    (member : .error error ∈ outcomes) : ∃ first, firstError? outcomes = some first := by
  rcases values_or_firstError? outcomes with ⟨values, rfl⟩ | found
  · obtain ⟨value, _, impossible⟩ := List.mem_map.mp member
    cases impossible
  · exact found

/-! ## Engines -/

namespace Engine

/-- The sources of the templates in the order in which they are compiled and expanded. -/
def sources (engine : Engine) : List String :=
  engine.templates.map Template.source

theorem sources_build (outputTag : String) (settings : Settings) (fields : List (String × String))
    (removeKeys : Option RemoveKeys) (renew : Bool) :
    (build outputTag settings fields removeKeys renew).sources =
      outputTag :: (FieldMap.ofPairs fields).map fun field => field.2.source := by
  simp [sources, templates, build, ofSpec, Template.ofSource]

theorem Coherent.of_mem_templates {engine : Engine} (coherent : engine.Coherent)
    {template : Template} (member : template ∈ engine.templates) :
    template.Coherent engine.settings.typecast := by
  rcases List.mem_cons.mp member with rfl | member
  · exact coherent.outputTag
  · obtain ⟨field, known, rfl⟩ := List.mem_map.mp member
    exact coherent.fields field known

theorem Continues.sources_eq {later earlier : Engine} (continues : later.Continues earlier) :
    later.sources = earlier.sources := by
  have bare : ∀ engine : Engine, engine.bare.sources = engine.sources := by
    intro engine
    simp [sources, templates, Engine.bare, FieldMap.bare, Assoc.mapValues, Function.comp_def]
  rw [← bare later, continues.bare_eq, bare earlier]

theorem Continues.settings_eq {later earlier : Engine} (continues : later.Continues earlier) :
    later.settings = earlier.settings := by
  have same := congrArg Engine.settings continues.bare_eq
  exact same

theorem compileFields_eq {fields : FieldMap} (coherent : fields.Coherent settings.typecast) :
    (compileFields settings fields).1 =
      match settings.firstUncompiled? (fields.map fun field => field.2.source) with
      | none => .ok ()
      | some source => .error (.compilation source) := by
  induction fields with
  | nil => rfl
  | cons field rest ih =>
    obtain ⟨key, template⟩ := field
    obtain ⟨first, others⟩ := FieldMap.coherent_cons.mp coherent
    have compiled := Settings.compile_eq first
    rw [List.map_cons, Settings.firstUncompiled?_cons]
    unfold compileFields
    revert compiled
    cases settings.compile template with
    | mk outcome after =>
      rintro rfl
      cases settings.compiles template.source with
      | true => exact ih others
      | false => rfl

/-- Compiling ahead reports the first source that does not compile, in order. -/
theorem Coherent.compileAll_eq {engine : Engine} (coherent : engine.Coherent) :
    engine.compileAll.1 =
      match engine.settings.firstUncompiled? engine.sources with
      | none => .ok ()
      | some source => .error (.compilation source) := by
  have compiled := Settings.compile_eq coherent.outputTag
  have fields := compileFields_eq coherent.fields
  rw [sources, templates, List.map_cons, List.map_map, Settings.firstUncompiled?_cons]
  unfold compileAll
  revert compiled
  cases engine.settings.compile engine.outputTag with
  | mk outcome after =>
    rintro rfl
    cases engine.settings.compiles engine.outputTag.source with
    | true => exact fields
    | false => rfl

/-- Looking up placeholders cannot fail. -/
theorem transform_of_placeholder [Host] {engine : Engine}
    (mode : engine.settings.mode = .placeholder) (event : Event) :
    ∃ out, (engine.transform event).outcome = .ok out := by
  have built : engine.settings.scope event =
      .ok (.placeholders (Placeholder.Table.build event engine.settings.hostname)) := by
    rw [Settings.scope, mode]
  obtain ⟨values, expanded⟩ := expandInTurn_placeholders engine.settings
    (Placeholder.Table.build event engine.settings.hostname) engine.templates
  cases values with
  | nil => cases expanded
  | cons tagValue values => exact ⟨_, transform_of_values built expanded⟩

/-- A template that does not compile fails every event, unless something else does before. -/
theorem Coherent.transform_of_uncompiled [Host] {engine : Engine} (coherent : engine.Coherent)
    {source : String} (member : source ∈ engine.sources)
    (fails : engine.settings.compiles source = false) (event : Event) :
    ∃ failure, (engine.transform event).outcome = .error failure := by
  cases mode : engine.settings.mode with
  | placeholder =>
    rw [Settings.compiles_placeholder mode] at fails
    cases fails
  | expression =>
    cases built : engine.settings.scope event with
    | error error => exact ⟨_, transform_of_scope_error built⟩
    | ok scope =>
      obtain ⟨known, answers, rfl⟩ := Settings.bindings_of_expression mode built
      have failed := (compilation_mem_expandInTurn (fun _ => coherent.of_mem_templates) mode known
        answers source).mpr ⟨member, fails⟩
      obtain ⟨first, found⟩ := firstError?_of_mem failed
      exact ⟨_, transform_of_firstError? built found⟩

/-- Where all sources compile, an event fails for other reasons only. -/
theorem Coherent.transform_of_compiled [Host] {engine : Engine} (coherent : engine.Coherent)
    (compiled : ∀ source ∈ engine.sources, engine.settings.compiles source = true) {event : Event}
    {failure : EventError} (failed : (engine.transform event).outcome = .error failure)
    (source : String) : failure.cause ≠ .compilation source := by
  rintro uncompiled
  cases mode : engine.settings.mode with
  | placeholder =>
    obtain ⟨out, succeeded⟩ := transform_of_placeholder mode event
    rw [succeeded] at failed
    cases failed
  | expression =>
    cases built : engine.settings.scope event with
    | error error =>
      rw [transform_of_scope_error built] at failed
      cases failed
      obtain rfl : error = .compilation source := uncompiled
      exact Settings.scope_ne_compilation _ _ source built
    | ok scope =>
      obtain ⟨known, answers, rfl⟩ := Settings.bindings_of_expression mode built
      rcases values_or_firstError? (expandInTurn engine.settings (.bindings known answers)
        engine.templates) with ⟨values, expanded⟩ | ⟨error, found⟩
      · cases values with
        | nil => cases expanded
        | cons tagValue values =>
          rw [transform_of_values built expanded] at failed
          cases failed
      · rw [transform_of_firstError? built found] at failed
        cases failed
        obtain rfl : error = .compilation source := uncompiled
        obtain ⟨member, fails⟩ := (compilation_mem_expandInTurn
          (fun _ => coherent.of_mem_templates) mode known answers source).mp
          (mem_of_firstError? found)
        rw [compiled source member] at fails
        cases fails

theorem process_of_error [Host] {engine : Engine} {event : Event} {failure : EventError}
    (failed : (engine.transform event).outcome = .error failure) (metrics : Metrics) :
    (engine.process metrics event).emitted = none ∧
      (engine.process metrics event).metrics.dropped = metrics.dropped + 1 := by
  rw [(engine.process_eq metrics event).1, process_metrics, failed]
  exact ⟨rfl, (tally_of_error failed metrics).2⟩

theorem process_of_ok [Host] {engine : Engine} {event out : Event}
    (succeeded : (engine.transform event).outcome = .ok out) (metrics : Metrics) :
    (engine.process metrics event).emitted = some out ∧
      (engine.process metrics event).metrics.dropped = metrics.dropped := by
  rw [(engine.process_eq metrics event).1, process_metrics, succeeded]
  exact ⟨rfl, (tally_of_ok succeeded metrics).2⟩

theorem compileAll_ok_iff {engine : Engine} (coherent : engine.Coherent) :
    engine.compileAll.1 = .ok () ↔
      ∀ source ∈ engine.sources, engine.settings.compiles source = true := by
  rw [coherent.compileAll_eq]
  cases found : engine.settings.firstUncompiled? engine.sources with
  | none =>
    rw [Settings.firstUncompiled?, List.find?_eq_none] at found
    simpa using found
  | some source =>
    have fails := List.find?_some found
    have member := List.mem_of_find?_eq_some found
    simp only [reduceCtorEq, false_iff, not_forall]
    exact ⟨source, member, by simpa using fails⟩

end Engine

/-- The fields of a configuration are made of the pairs that are written in it. -/
theorem Config.pairs_of_fieldMap {config : Config} {fields : FieldMap}
    (mapped : config.fieldMap = .ok fields) :
    ∃ written, pairs (config.fields ++ config.block) = .ok written ∧
      FieldMap.ofPairs written = fields := by
  unfold fieldMap at mapped
  cases read : pairs (config.fields ++ config.block) with
  | error problem =>
    rw [read] at mapped
    cases mapped
  | ok written =>
    rw [read] at mapped
    exact ⟨written, rfl, Except.ok.inj mapped⟩

/-- A configuration is prepared exactly if its fields make a map and all its templates compile. -/
theorem Config.prepare_ok_iff (config : Config) (fallback : String) :
    (∃ prepared, config.prepare fallback = .ok prepared) ↔
      ∃ fields, config.fieldMap = .ok fields ∧
        ∀ source ∈ config.outputTag :: fields.map (fun field => field.2.source),
          Settings.compiles ⟨config.mode, config.hostname.getD fallback, config.typecast⟩ source =
            true := by
  cases built : config.fieldMap with
  | error problem =>
    have refused : config.prepare fallback = .error (.config problem) := by
      rw [prepare, engine, built]
      rfl
    simp [refused]
  | ok fields =>
    obtain ⟨pairs, _, rfl⟩ := pairs_of_fieldMap built
    let prepared := Engine.build config.outputTag
      ⟨config.mode, config.hostname.getD fallback, config.typecast⟩ pairs config.parsedRemoveKeys
      config.renew
    have coherent : prepared.Coherent := Engine.coherent_build _ _ _ _ _
    have compiles := Engine.compileAll_ok_iff coherent
    have sources : prepared.sources =
        config.outputTag :: (FieldMap.ofPairs pairs).map fun field => field.2.source :=
      Engine.sources_build ..
    have accepted : (∃ compiled, config.prepare fallback = .ok compiled) ↔
        prepared.compileAll.1 = .ok () := by
      have begun : config.engine fallback = .ok prepared := by
        rw [engine, built]
        rfl
      simp only [prepare, begun]
      cases prepared.compileAll with
      | mk compiled after => cases compiled <;> simp
    rw [sources] at compiles
    simp only [accepted, compiles, Except.ok.injEq, exists_eq_left']
    rfl

namespace Engine

/-- Compiling ahead reports the first template, in the order in which they are expanded, whose
source does not compile. If there is none, no event fails to compile, whatever it holds. If there is
one, every event fails and is dropped. Placeholders always compile and never fail. So a
configuration is prepared exactly if its fields make a map and each of its templates compiles. -/
theorem compileAll_foretells_events [Host] (outputTag : String) (settings : Settings)
    (fields : List (String × String)) (removeKeys : Option RemoveKeys) (renew : Bool)
    (calls : List Call) :
    let fresh := build outputTag settings fields removeKeys renew
    let engine := fresh.after calls
    engine.compileAll.1 =
      (match settings.firstUncompiled? fresh.sources with
      | none => .ok ()
      | some source => .error (.compilation source)) ∧
    (engine.compileAll.1 = .ok () → ∀ event failure source,
      (engine.transform event).outcome = .error failure → failure.cause ≠ .compilation source) ∧
    (∀ error, engine.compileAll.1 = .error error → ∀ event metrics,
      (∃ failure, (engine.transform event).outcome = .error failure) ∧
        (engine.process metrics event).emitted = none ∧
        (engine.process metrics event).metrics.dropped = metrics.dropped + 1) ∧
    (settings.mode = .placeholder → engine.compileAll.1 = .ok () ∧ ∀ event metrics,
      ∃ out, (engine.transform event).outcome = .ok out ∧
        (engine.process metrics event).emitted = some out ∧
        (engine.process metrics event).metrics.dropped = metrics.dropped) ∧
    ∀ (config : Config) (fallback : String),
      (∃ prepared, config.prepare fallback = .ok prepared) ↔
        ∃ fields, config.fieldMap = .ok fields ∧
          ∀ source ∈ config.outputTag :: fields.map (fun field => field.2.source),
            Settings.compiles ⟨config.mode, config.hostname.getD fallback, config.typecast⟩ source =
              true := by
  intro fresh engine
  have built := coherent_build outputTag settings fields removeKeys renew
  have continues : engine.Continues fresh := built.continues_after calls
  have coherent := continues.coherent
  have sameSettings : engine.settings = settings := continues.settings_eq
  have compiled := coherent.compileAll_eq
  rw [sameSettings, continues.sources_eq] at compiled
  refine ⟨compiled, ?_, ?_, ?_, Config.prepare_ok_iff⟩
  · intro succeeded event failure source failed
    exact coherent.transform_of_compiled ((compileAll_ok_iff coherent).mp succeeded) failed source
  · intro error refused event metrics
    rw [compiled] at refused
    cases found : settings.firstUncompiled? fresh.sources with
    | none =>
      rw [found] at refused
      cases refused
    | some source =>
      have fails : settings.compiles source = false := by simpa using List.find?_some found
      have member := List.mem_of_find?_eq_some found
      rw [← sameSettings] at fails
      rw [← continues.sources_eq] at member
      obtain ⟨failure, failed⟩ := coherent.transform_of_uncompiled member fails event
      exact ⟨⟨failure, failed⟩, process_of_error failed metrics⟩
  · intro mode
    rw [← sameSettings] at mode
    refine ⟨(compileAll_ok_iff coherent).mpr fun source _ =>
      Settings.compiles_placeholder mode source, fun event metrics => ?_⟩
    obtain ⟨out, succeeded⟩ := transform_of_placeholder mode event
    exact ⟨out, succeeded, process_of_ok succeeded metrics⟩

/-- A template that reads an unknown variable hides one that does not compile from events, but not
from compiling ahead. -/
theorem compileAll_foretells_events_masked :
    let engine := (build "$\x7bnone\x7d" ⟨.expression, "h", true⟩ [("x", "$\x7btag.\x7d")] none
      false).after []
    let event : Event := ⟨"a", 0, []⟩
    engine.compileAll.1 = .error (.compilation "$\x7btag.\x7d") ∧
      (engine.transform event).outcome = .error
        ⟨"a", .evaluation "$\x7bnone\x7d" (.script (.variableNotFound "none"))⟩ ∧
      (engine.process .zero event).emitted = none := by
  intro engine event
  have refused : engine.compileAll.1 = .error (.compilation "$\x7btag.\x7d") := by cbv
  obtain ⟨_, _, fails, _⟩ := compileAll_foretells_events "$\x7bnone\x7d" ⟨.expression, "h", true⟩
    [("x", "$\x7btag.\x7d")] none false []
  exact ⟨refused, by cbv, (fails _ refused event .zero).2.1⟩

end Engine

end Recast
