import Recast.Proofs.PlaceholderGrammar
import Recast.Proofs.SharedCounters
import Recast.Proofs.SharedTemplates

set_option autoImplicit false

/-!
# Substitution in one pass

In placeholder mode every template expands. Its pieces are replaced once, from left to right, and
what a value brings in is not read again. A template that is a single placeholder may keep the kind
of its value, but this changes neither its text nor what is reported.
-/

namespace Recast

namespace Placeholder.Table

/-- The text that stands in place of a piece. -/
def textFor (table : Table) : Template.Piece → String
  | .literal text => text
  | .placeholder token =>
    match Assoc.get? table token with
    | some value => value.asText
    | none => ""

/-- A template with each of its pieces replaced. -/
def substitute (table : Table) (source : String) : String :=
  String.join ((Template.pieces source).map table.textFor)

/-- The value of a template. A template that is one placeholder may have the value of this as it
is. -/
def valueOf (table : Table) (typecast : Bool) (source : String) : Json.Value :=
  if typecast = true ∧ Template.IsWord source.toList then (Assoc.get? table source).getD .null
  else .text (table.substitute source)

/-- The value of a single placeholder has the text that would be put in its place. -/
theorem asText_valueOf (table : Table) (typecast : Bool) (source : String) :
    (table.valueOf typecast source).asText = table.substitute source := by
  unfold valueOf
  split
  next single =>
    have cut := Template.eq_of_single?
      (Template.single?_pieces_eq_some_iff.mpr ⟨single.2, rfl⟩)
    rw [substitute, cut, List.map_singleton, textFor]
    cases Assoc.get? table source with
    | some value => simp
    | none => rfl
  next => rfl

end Placeholder.Table

/-! ## One template -/

section Expansion

variable (table : Placeholder.Table) (typecast : Bool)

theorem pieceText_fst (piece : Template.Piece) :
    (pieceText table piece).1 = table.textFor piece := by
  cases piece with
  | literal text => rfl
  | placeholder token =>
    rw [pieceText, Placeholder.Table.textFor]
    cases Assoc.get? table token <;> rfl

theorem expandPieces_pieces (source : String) :
    expandPieces typecast table (Template.pieces source) =
      (table.valueOf typecast source, table.missing (Template.pieces source)) := by
  refine Prod.ext ?_ (expandPieces_unknown table typecast _)
  unfold expandPieces Placeholder.Table.valueOf
  split
  next token single =>
    obtain ⟨keeps, single⟩ := Option.ite_none_right_eq_some.mp single
    obtain ⟨isWord, rfl⟩ := Template.single?_pieces_eq_some_iff.mp single
    rw [if_pos ⟨keeps, isWord⟩]
    cases Assoc.get? table token <;> rfl
  next several =>
    rw [if_neg]
    · simp only [List.map_map, Placeholder.Table.substitute]
      congr 3
      funext piece
      exact pieceText_fst table piece
    · rintro ⟨rfl, isWord⟩
      rw [if_pos rfl, Template.single?_pieces_eq_some_iff.mpr ⟨isWord, rfl⟩] at several
      cases several

theorem Scope.expand_cut (settings : Settings) {template : Template} {source : String}
    (cut : template.withPieces.1 = Template.pieces source) :
    let expansion := (Scope.placeholders table).expand settings template
    expansion.outcome = .ok (table.valueOf settings.typecast source) ∧
      expansion.scope = .placeholders table ∧
      expansion.unknown = table.missing (Template.pieces source) := by
  simp only [expand, cut, expandPieces_pieces, and_self]

/-- Templates that are expanded one after another find the same scope. -/
theorem expandInTurn_cut (settings : Settings) {templates : List Template}
    (cut : ∀ template ∈ templates, template.withPieces.1 = Template.pieces template.source) :
    expandInTurn settings (.placeholders table) templates =
      (templates.map fun template => table.valueOf settings.typecast template.source).map .ok := by
  induction templates with
  | nil => rfl
  | cons template rest ih =>
    obtain ⟨here, others⟩ := List.forall_mem_cons.mp cut
    obtain ⟨outcome, scope, _⟩ := Scope.expand_cut table settings here
    rw [expandInTurn, outcome, scope, ih others]
    rfl

end Expansion

/-! ## The templates of an engine -/

namespace Engine

variable {engine : Engine}

theorem Coherent.transform_substitutes [Host] (coherent : engine.Coherent)
    (mode : engine.settings.mode = .placeholder) (event : Event) :
    let table := Placeholder.Table.build event engine.settings.hostname
    (engine.transform event).outcome =
      .ok ⟨table.substitute engine.outputTag.source, event.time,
        engine.assemble event.record (engine.fields.map fun field =>
          (field.1, table.valueOf engine.settings.typecast field.2.source))⟩ := by
  intro table
  have built : engine.settings.scope event = .ok (.placeholders table) := by
    rw [Settings.scope, mode]
  have cut : ∀ template ∈ engine.templates,
      template.withPieces.1 = Template.pieces template.source :=
    fun template member => (coherent.of_mem_templates member).withPieces_eq
  rw [transform_of_values built (expandInTurn_cut table engine.settings cut),
    Placeholder.Table.asText_valueOf, List.map_map]
  congr 3
  exact List.zip_map'

end Engine

/-- In placeholder mode every template expands, whatever it has been used for before. One that is a
single placeholder keeps the value of this, or null if it is not found; any other is the text of its
pieces, each replaced once, and so is the text of either. Each time that a placeholder is not found
this is reported once, in order, with the tag of the event, and counted once. What an engine reports
and counts, and the text of its output tag, are therefore the same with and without kept values. -/
theorem expand_substitutes_once [Host] (hostname : String) (event : Event) :
    let table := Placeholder.Table.build event hostname
    (∀ typecast source (before : List Template.Call),
      let settings : Settings := ⟨.placeholder, hostname, typecast⟩
      let template := (Template.ofSource source).serveAll before
      let expansion := (Scope.placeholders table).expand settings template
      let text := String.join ((Template.pieces source).map table.textFor)
      settings.scope event = .ok (.placeholders table) ∧
        expansion.outcome = .ok (if typecast = true ∧ Template.IsWord source.toList then
          (Assoc.get? table source).getD .null else .text text) ∧
        expansion.outcome.map Json.Value.asText = .ok text ∧
        expansion.scope = .placeholders table ∧
        expansion.unknown = table.missing (Template.pieces source)) ∧
    ∀ outputTag fields,
      let sources := outputTag :: (FieldMap.ofPairs fields).map fun field => field.2.source
      let unknown := sources.flatMap fun source => table.missing (Template.pieces source)
      ∀ typecast removeKeys renew calls metrics,
        let settings : Settings := ⟨.placeholder, hostname, typecast⟩
        let fresh := Engine.build outputTag settings fields removeKeys renew
        let processing := (fresh.after calls).process metrics event
        processing.emitted = some ⟨table.substitute outputTag, event.time,
            fresh.assemble event.record ((FieldMap.ofPairs fields).map fun field =>
              (field.1, table.valueOf typecast field.2.source))⟩ ∧
          processing.notices = unknown.map (fun token => .unknownPlaceholder token event.tag) ∧
          processing.metrics = { metrics with
            received := metrics.received + 1
            emitted := metrics.emitted + 1
            unknownPlaceholders := metrics.unknownPlaceholders + unknown.length } := by
  intro table
  constructor
  · intro typecast source before settings template expansion text
    have remembers := (Template.remembers_ofSource source).serveAll before
    obtain ⟨outcome, scope, unknown⟩ := Scope.expand_cut table settings remembers.withPieces.1
    have shown : expansion.outcome.map Json.Value.asText =
        .ok (table.valueOf typecast source).asText := congrArg (Except.map _) outcome
    rw [Placeholder.Table.asText_valueOf] at shown
    exact ⟨rfl, outcome, shown, scope, unknown⟩
  · intro outputTag fields sources unknown typecast removeKeys renew calls metrics settings fresh
      processing
    have coherent : fresh.Coherent := Engine.coherent_build ..
    obtain ⟨outcome, found, _⟩ := (coherent.continues_after calls).transform_eq coherent event
    have succeeded := outcome.trans (coherent.transform_substitutes rfl event)
    have reported : _ = fresh.missing event := found.trans (coherent.transform_unknown event)
    have missing : fresh.missing event = unknown := by
      rw [Engine.missing]
      exact congrArg (List.flatMap _) (Engine.sources_build ..)
    rw [missing] at reported
    simp only [processing, Engine.process, succeeded, reported]
    exact ⟨rfl, rfl, rfl⟩

example :
    let event : Event := ⟨"t", 0, [("a", .text "$\x7bb\x7d"), ("b", .int 1)]⟩
    (Placeholder.Table.build event "h").substitute "$\x7ba\x7d-$\x7bb\x7d-$\x7bc\x7d" =
      "$\x7bb\x7d-1-" := by
  decide +kernel

end Recast
