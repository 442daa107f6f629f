import Mathlib
import Recast.Proofs.Caching

set_option autoImplicit false

/-!
# Templates that are shared

Several users may make calls on one template. The pieces that it remembers are those of its source,
but its script also depends on whether the user whose call compiled it keeps the kind of a value. A
call gives what it gives on a fresh template if that user's choice is made for it. So users that
choose alike cannot tell what the template remembers, and others can.
-/

namespace Recast.Template

/-- A call on a template: its user compiles it, or expands it in a scope. -/
inductive Call where
  | compile (settings : Settings)
  | expand (settings : Settings) (scope : Scope)

inductive Answer where
  | compiled (outcome : Except TemplateError Unit)
  | expanded (outcome : Except TemplateError Json.Value) (scope : Scope) (unknown : List String)
    (effects : Script.Effects)

def serve (template : Template) : Call → Answer × Template
  | .compile settings =>
    let (outcome, template) := settings.compile template
    (.compiled outcome, template)
  | .expand settings scope =>
    let expansion := scope.expand settings template
    (.expanded expansion.outcome expansion.scope expansion.unknown expansion.effects,
      expansion.template)

def serveAll (template : Template) (calls : List Call) : Template :=
  calls.foldl (fun template call => (template.serve call).2) template

/-- The choice with which a call compiles a script, if it needs one. -/
def Call.typecast? : Call → Option Bool
  | .compile settings =>
    match settings.mode with
    | .placeholder => none
    | .expression => some settings.typecast
  | .expand settings scope =>
    match scope with
    | .placeholders _ => none
    | .bindings _ _ => some settings.typecast

/-- The call with another choice for its script, if there is one. -/
def Call.choosing (choice : Option Bool) : Call → Call
  | .compile settings => .compile { settings with typecast := choice.getD settings.typecast }
  | .expand settings scope =>
    match scope with
    | .placeholders _ => .expand settings scope
    | .bindings _ _ => .expand { settings with typecast := choice.getD settings.typecast } scope

def scriptOf? (source : String) (typecast : Bool) : Option Script.Compiled :=
  Script.compile? (String.ofList (rewrite typecast source.toList))

section Script

variable {template : Template} {typecast : Bool} {found : Script.Compiled}

theorem withScript_of_known (known : template.script? = some found) (typecast : Bool) :
    template.withScript typecast = (.ok found, template) := by
  unfold withScript
  rw [known]

theorem withScript_of_some (unknown : template.script? = none)
    (compiled : scriptOf? template.source typecast = some found) :
    template.withScript typecast = (.ok found, { template with script? := some found }) := by
  unfold scriptOf? at compiled
  simp only [withScript, unknown, compiled]

theorem withScript_of_none (unknown : template.script? = none)
    (uncompiled : scriptOf? template.source typecast = none) :
    template.withScript typecast = (.error (.compilation template.source), template) := by
  unfold scriptOf? at uncompiled
  simp only [withScript, unknown, uncompiled]

end Script

/-- The choice that is made by a call, unless one has been made: that of its user, if the script
compiles. -/
def settle (source : String) (choice : Option Bool) (call : Call) : Option Bool :=
  choice.or (call.typecast?.filter fun typecast => (scriptOf? source typecast).isSome)

def choiceAfter (source : String) (calls : List Call) : Option Bool :=
  calls.foldl (settle source) none

/-- What a template remembers once a choice has been made, or before. -/
structure Remembers (source : String) (choice : Option Bool) (template : Template) : Prop where
  same : template.source = source
  pieces : ∀ known, template.pieces? = some known → known = Template.pieces source
  script : template.script? = choice.bind (scriptOf? source)
  compiles : ∀ typecast, choice = some typecast → (scriptOf? source typecast).isSome = true

section Remembers

variable {source : String} {choice : Option Bool} {template : Template}

theorem remembers_ofSource (source : String) : Remembers source none (ofSource source) :=
  ⟨rfl, nofun, rfl, nofun⟩

theorem Remembers.withPieces (remembers : Remembers source choice template) :
    template.withPieces.1 = Template.pieces source ∧
      Remembers source choice template.withPieces.2 := by
  obtain ⟨rfl, pieces, script, compiles⟩ := remembers
  unfold Template.withPieces
  cases known : template.pieces? with
  | some found => exact ⟨pieces found known, rfl, pieces, script, compiles⟩
  | none => exact ⟨rfl, rfl, fun _ found => (Option.some.inj found).symm, script, compiles⟩

/-- A script that is asked for is that of the choice, or of the asking user if none has been made.
If it compiles, that user's choice is made. -/
theorem Remembers.withScript (remembers : Remembers source choice template) (typecast : Bool) :
    (template.withScript typecast).1 =
        ((ofSource source).withScript (choice.getD typecast)).1 ∧
      Remembers source
        (choice.or ((some typecast).filter fun typecast => (scriptOf? source typecast).isSome))
        (template.withScript typecast).2 := by
  obtain ⟨rfl, pieces, script, compiles⟩ := remembers
  cases choice with
  | some chosen =>
    obtain ⟨found, compiled⟩ := Option.isSome_iff_exists.mp (compiles chosen rfl)
    have fresh : (ofSource template.source).withScript chosen = _ := withScript_of_some rfl compiled
    have known := withScript_of_known (script.trans compiled) typecast
    constructor
    · rw [known, Option.getD_some, fresh]
    · rw [known]
      exact ⟨rfl, pieces, script, compiles⟩
  | none =>
    cases compiled : scriptOf? template.source typecast with
    | some found =>
      have fresh : (ofSource template.source).withScript typecast = _ :=
        withScript_of_some rfl compiled
      constructor
      · rw [withScript_of_some script compiled, Option.getD_none, fresh]
      · have decided : (some typecast).filter (fun typecast =>
            (scriptOf? template.source typecast).isSome) = some typecast := by
          simp [compiled]
        rw [withScript_of_some script compiled, decided]
        refine ⟨rfl, pieces, compiled.symm, ?_⟩
        rintro _ ⟨⟩
        rw [compiled]
        rfl
    | none =>
      have fresh : (ofSource template.source).withScript typecast = _ :=
        withScript_of_none rfl compiled
      constructor
      · rw [withScript_of_none script compiled, Option.getD_none, fresh]
        rfl
      · rw [withScript_of_none script compiled]
        have undecided : (some typecast).filter (fun typecast =>
            (scriptOf? template.source typecast).isSome) = none := by
          simp [compiled]
        rw [undecided]
        exact ⟨rfl, pieces, script, compiles⟩

theorem source_withScript (typecast : Bool) (template : Template) :
    (template.withScript typecast).2.source = template.source := by
  have kept := congrArg Template.source (template.bare_withScript typecast)
  exact kept

/-- Among bindings, a template answers with what its script does, and it then knows the script. -/
theorem serve_bindings {first second : Template} (settings others : Settings)
    (script : (first.withScript settings.typecast).1 = (second.withScript others.typecast).1)
    (same : first.source = second.source) (known : Script.Bindings)
    (answers : Nat → Script.Answers) :
    (first.serve (.expand settings (.bindings known answers))).1 =
        (second.serve (.expand others (.bindings known answers))).1 ∧
      (first.serve (.expand settings (.bindings known answers))).2 =
        (first.withScript settings.typecast).2 := by
  have source : (first.withScript settings.typecast).2.source =
      (second.withScript others.typecast).2.source := by
    rw [source_withScript, source_withScript, same]
  simp only [serve, Scope.expand]
  generalize first.withScript settings.typecast = made at script source ⊢
  generalize second.withScript others.typecast = other at script source ⊢
  obtain ⟨outcome, after⟩ := made
  obtain ⟨otherOutcome, otherAfter⟩ := other
  obtain rfl : outcome = otherOutcome := script
  have kept : after.source = otherAfter.source := source
  cases outcome with
  | error error => exact ⟨rfl, rfl⟩
  | ok script =>
    cases ran : script.run (answers 0) known with
    | mk result left => cases result <;> simp [ran, kept]

/-- One call: it gives what it gives on a fresh template with the choice that has been made. -/
theorem Remembers.serve (remembers : Remembers source choice template) (call : Call) :
    (template.serve call).1 = ((ofSource source).serve (call.choosing choice)).1 ∧
      Remembers source (settle source choice call) (template.serve call).2 := by
  obtain ⟨pieces, afterPieces⟩ := remembers.withPieces
  have unsettled : choice.or none = choice := Option.or_none
  cases call with
  | compile settings =>
    obtain ⟨script, afterScript⟩ := remembers.withScript settings.typecast
    cases mode : settings.mode with
    | placeholder =>
      constructor
      · simp only [Template.serve, Settings.compile, Call.choosing, mode]
      · simp only [Template.serve, Settings.compile, settle, Call.typecast?, mode,
          Option.filter_none, unsettled]
        exact afterPieces
    | expression =>
      simp only [Template.serve, Settings.compile, settle, Call.typecast?, Call.choosing, mode]
      generalize template.withScript settings.typecast = made at script afterScript ⊢
      generalize (ofSource source).withScript (choice.getD settings.typecast) = fresh at script ⊢
      obtain ⟨outcome, after⟩ := made
      obtain ⟨freshOutcome, freshAfter⟩ := fresh
      obtain rfl : outcome = freshOutcome := script
      cases outcome with
      | ok script => exact ⟨rfl, afterScript⟩
      | error error => exact ⟨rfl, afterScript⟩
  | expand settings scope =>
    cases scope with
    | placeholders table =>
      constructor
      · simp only [Template.serve, Scope.expand, Call.choosing, pieces]
        rfl
      · rw [settle, Call.typecast?, Option.filter_none, unsettled]
        exact afterPieces
    | bindings known answers =>
      obtain ⟨script, afterScript⟩ := remembers.withScript settings.typecast
      obtain ⟨answer, after⟩ := serve_bindings settings
        { settings with typecast := choice.getD settings.typecast } script remembers.same known
        answers
      refine ⟨answer, ?_⟩
      rw [after]
      exact afterScript

/-- Any calls, one after another. -/
theorem Remembers.serveAll (remembers : Remembers source choice template) (calls : List Call) :
    Remembers source (calls.foldl (settle source) choice) (template.serveAll calls) := by
  induction calls generalizing choice template with
  | nil => exact remembers
  | cons call rest ih => exact ih (remembers.serve call).2

end Remembers

theorem Call.choosing_none (call : Call) : call.choosing none = call := by
  cases call with
  | compile settings => rfl
  | expand settings scope => cases scope <;> rfl

/-- A choice that the user makes as well changes nothing. -/
theorem Call.choosing_own {call : Call} {typecast : Bool}
    (agrees : ∀ own, call.typecast? = some own → own = typecast) (source : String) :
    ((ofSource source).serve (call.choosing (some typecast))).1 =
      ((ofSource source).serve call).1 := by
  cases call with
  | compile settings =>
    cases mode : settings.mode with
    | placeholder => simp [choosing, serve, Settings.compile, mode]
    | expression =>
      obtain rfl : settings.typecast = typecast := agrees _ (by simp [typecast?, mode])
      rfl
  | expand settings scope =>
    cases scope with
    | placeholders table => rfl
    | bindings known answers =>
      obtain rfl : settings.typecast = typecast := agrees _ rfl
      rfl

theorem choiceAfter_of_agree {calls : List Call} {typecast : Bool}
    (agree : ∀ call ∈ calls, ∀ own, call.typecast? = some own → own = typecast) (source : String) :
    choiceAfter source calls = none ∨ choiceAfter source calls = some typecast := by
  have run : ∀ (rest : List Call) (choice : Option Bool),
      (∀ call ∈ rest, ∀ own, call.typecast? = some own → own = typecast) →
      (choice = none ∨ choice = some typecast) →
      rest.foldl (settle source) choice = none ∨
        rest.foldl (settle source) choice = some typecast := by
    intro rest
    induction rest with
    | nil => exact fun _ _ decided => decided
    | cons call rest ih =>
      intro choice agree decided
      refine ih _ (fun later member => agree later (List.mem_cons_of_mem _ member)) ?_
      rcases decided with rfl | rfl
      · cases asked : call.typecast? with
        | none => exact .inl (by simp [settle, asked])
        | some own =>
          obtain rfl := agree call List.mem_cons_self own asked
          rw [settle, asked, Option.none_or]
          cases compiled : scriptOf? source own with
          | some script => exact .inr (by simp [compiled])
          | none => exact .inl (by simp [compiled])
      · exact .inr rfl
  exact run calls none agree (.inl rfl)

/-- Whatever calls users have made on a template, the next call gives what it gives on a fresh
template with the choice of the call that compiled the script first. So users that agree on the
choice, and users that look up placeholders whatever they choose, find the template as if it were
fresh. A copy of the template is fresh, and its source is what it was. -/
theorem serve_as_fresh (source : String) (before : List Call) (call : Call) :
    let template := (ofSource source).serveAll before
    (template.serve call).1 =
        ((ofSource source).serve (call.choosing (choiceAfter source before))).1 ∧
      (∀ typecast, (∀ made ∈ call :: before, ∀ own, made.typecast? = some own → own = typecast) →
        (template.serve call).1 = ((ofSource source).serve call).1) ∧
      (call.typecast? = none → (template.serve call).1 = ((ofSource source).serve call).1) ∧
      template.bare = ofSource source ∧ template.source = source := by
  intro template
  have remembers : Remembers source (choiceAfter source before) template :=
    (remembers_ofSource source).serveAll before
  obtain ⟨answer, _⟩ := remembers.serve call
  refine ⟨answer, ?_, ?_, ?_, remembers.same⟩
  · intro typecast agree
    rw [List.forall_mem_cons] at agree
    rcases choiceAfter_of_agree agree.2 source with unmade | made
    · rw [answer, unmade, Call.choosing_none]
    · rw [answer, made, Call.choosing_own agree.1]
  · intro unscripted
    rw [answer]
    cases choiceAfter source before with
    | none => rw [Call.choosing_none]
    | some typecast => exact Call.choosing_own (by simp [unscripted]) source
  · rw [bare, remembers.same]

/-- Users that choose differently: one that keeps the kind of a value compiles the script, and one
that does not is then given a number instead of a text. -/
theorem serve_as_fresh_fails :
    let keeps : Settings := ⟨.expression, "h", true⟩
    let shows : Settings := ⟨.expression, "h", false⟩
    let scope := Scope.bindings (eventBindings ⟨"a", 0, [("n", .int 1)]⟩ "h") fun _ => .still
    let fresh := ofSource "$\x7bn\x7d"
    ((fresh.serve (.compile keeps)).2.serve (.expand shows scope)).1 ≠
      (fresh.serve (.expand shows scope)).1 := by
  intro keeps shows scope fresh
  have kept : (scope.expand shows (fresh.serve (.compile keeps)).2).outcome = .ok (.int 1) := by cbv
  have shown : (scope.expand shows fresh).outcome = .ok (.text "1") := by cbv
  intro same
  have outcomes : (scope.expand shows (fresh.serve (.compile keeps)).2).outcome =
      (scope.expand shows fresh).outcome := (Answer.expanded.inj same).1
  rw [kept, shown] at outcomes
  cases outcomes

end Recast.Template
