import Recast.Engine

set_option autoImplicit false

/-!
# What templates remember

A template may know its pieces and its script. What it knows is coherent if it is what its own
source gives under the settings of its engine. Expanding and compiling keep this, whatever they
lead to, and a coherent template cannot be told from its source.
-/

namespace Recast

namespace Template

/-- The template of which nothing is known. -/
def bare (template : Template) : Template :=
  ofSource template.source

/-- What is known of a template is what its source gives. -/
structure Coherent (typecast : Bool) (template : Template) : Prop where
  pieces : ∀ known, template.pieces? = some known → known = Template.pieces template.source
  script : ∀ known, template.script? = some known →
    Script.compile? (String.ofList (rewrite typecast template.source.toList)) = some known

@[simp] theorem bare_ofSource (source : String) : (ofSource source).bare = ofSource source := rfl

@[simp] theorem source_bare (template : Template) : template.bare.source = template.source := rfl

theorem coherent_ofSource (typecast : Bool) (source : String) :
    Coherent typecast (ofSource source) := by
  constructor
  · intro known absent
    cases absent
  · intro known absent
    cases absent

@[simp] theorem bare_withPieces (template : Template) :
    template.withPieces.2.bare = template.bare := by
  unfold withPieces
  cases template.pieces? with
  | none => rfl
  | some known => rfl

@[simp] theorem bare_withScript (typecast : Bool) (template : Template) :
    (template.withScript typecast).2.bare = template.bare := by
  unfold withScript
  cases template.script? with
  | some known => rfl
  | none =>
    cases Script.compile? (String.ofList (rewrite typecast template.source.toList)) with
    | some script => rfl
    | none => rfl

theorem Coherent.withPieces_eq {typecast : Bool} {template : Template}
    (coherent : template.Coherent typecast) :
    template.withPieces.1 = template.bare.withPieces.1 := by
  have unknown : template.bare.withPieces.1 = Template.pieces template.source := rfl
  rw [unknown, withPieces]
  cases known : template.pieces? with
  | none => rfl
  | some pieces => exact coherent.pieces pieces known

/-- The script of a coherent template, or its failure to compile, is that of its source. -/
theorem Coherent.withScript_eq {typecast : Bool} {template : Template}
    (coherent : template.Coherent typecast) :
    (template.withScript typecast).1 = (template.bare.withScript typecast).1 := by
  have unknown : template.bare.script? = none := rfl
  cases known : template.script? with
  | some script =>
    have compiles := coherent.script script known
    simp only [withScript, known, unknown, source_bare, compiles]
  | none =>
    simp only [withScript, known, unknown, source_bare]
    cases Script.compile? (String.ofList (rewrite typecast template.source.toList)) with
    | some script => rfl
    | none => rfl

theorem Coherent.after_withPieces {typecast : Bool} {template : Template}
    (coherent : template.Coherent typecast) : template.withPieces.2.Coherent typecast := by
  unfold withPieces
  cases known : template.pieces? with
  | some pieces => exact coherent
  | none => exact ⟨fun _ found => (Option.some.inj found).symm, coherent.script⟩

theorem Coherent.after_withScript {typecast : Bool} {template : Template}
    (coherent : template.Coherent typecast) :
    (template.withScript typecast).2.Coherent typecast := by
  unfold withScript
  cases known : template.script? with
  | some script => exact coherent
  | none =>
    cases compiled :
        Script.compile? (String.ofList (rewrite typecast template.source.toList)) with
    | none => exact coherent
    | some script =>
      refine ⟨coherent.pieces, ?_⟩
      intro other found
      rw [← Option.some.inj found]
      exact compiled

end Template

namespace Scope

@[simp] theorem bare_expand (settings : Settings) (template : Template) (scope : Scope) :
    (scope.expand settings template).template.bare = template.bare := by
  cases scope with
  | placeholders table => exact template.bare_withPieces
  | bindings known answers =>
    have kept := template.bare_withScript settings.typecast
    unfold expand
    revert kept
    cases template.withScript settings.typecast with
    | mk compiled after =>
      intro kept
      cases compiled with
      | error error => exact kept
      | ok script =>
        cases ran : script.run (answers 0) known with
        | mk outcome left => cases outcome <;> simpa [ran] using kept

/-- Expanding keeps a template coherent, also if it fails. -/
theorem coherent_expand {settings : Settings} {template : Template} (scope : Scope)
    (coherent : template.Coherent settings.typecast) :
    (scope.expand settings template).template.Coherent settings.typecast := by
  cases scope with
  | placeholders table => exact coherent.after_withPieces
  | bindings known answers =>
    have kept := coherent.after_withScript
    unfold expand
    revert kept
    cases template.withScript settings.typecast with
    | mk compiled after =>
      intro kept
      cases compiled with
      | error error => exact kept
      | ok script =>
        cases ran : script.run (answers 0) known with
        | mk outcome left => cases outcome <;> simpa [ran] using kept

/-- What a coherent template expands to is what its source expands to, with the same scope
afterwards and the same placeholders not found. -/
theorem expand_eq_of_coherent {settings : Settings} {template : Template} (scope : Scope)
    (coherent : template.Coherent settings.typecast) :
    scope.expand settings template =
      { scope.expand settings template.bare with
        template := (scope.expand settings template).template } := by
  cases scope with
  | placeholders table =>
    have same := coherent.withPieces_eq
    simp only [expand, same]
  | bindings known answers =>
    have same := coherent.withScript_eq
    have source : (template.withScript settings.typecast).2.source =
        (template.bare.withScript settings.typecast).2.source := by
      have kept := congrArg Template.source (template.bare_withScript settings.typecast)
      have bareKept := congrArg Template.source (template.bare.bare_withScript settings.typecast)
      exact kept.trans bareKept.symm
    unfold expand
    revert same source
    cases template.withScript settings.typecast with
    | mk compiled after =>
      cases template.bare.withScript settings.typecast with
      | mk bareCompiled bareAfter =>
        intro same source
        dsimp only at same source
        subst same
        cases compiled with
        | error error => rfl
        | ok script =>
          cases ran : script.run (answers 0) known with
          | mk outcome left => cases outcome <;> simp [ran, source]

end Scope

@[simp] theorem Settings.bare_compile (settings : Settings) (template : Template) :
    (settings.compile template).2.bare = template.bare := by
  have pieces := template.bare_withPieces
  have script := template.bare_withScript settings.typecast
  unfold compile
  cases settings.mode with
  | placeholder => exact pieces
  | expression =>
    revert script
    cases template.withScript settings.typecast with
    | mk compiled after => cases compiled <;> exact id

theorem Settings.coherent_compile {settings : Settings} {template : Template}
    (coherent : template.Coherent settings.typecast) :
    (settings.compile template).2.Coherent settings.typecast := by
  have pieces := coherent.after_withPieces
  have script := coherent.after_withScript
  unfold compile
  cases settings.mode with
  | placeholder => exact pieces
  | expression =>
    revert script
    cases template.withScript settings.typecast with
    | mk compiled after => cases compiled <;> exact id

end Recast
