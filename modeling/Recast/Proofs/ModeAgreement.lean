import Recast.Proofs.HoleValues

set_option autoImplicit false

/-!
# Both modes on templates that only substitute

A template of literals and holes gives the same value by looking up its placeholders and as a
script, whose objects are sorted, unless a backslash stands before a hole.
-/

namespace Recast

open Template (Hole Plain)

/-- What a template gives for an event. -/
def Settings.expand [Host] (settings : Settings) (event : Event) (source : String) :
    Except TemplateError Json.Value :=
  match settings.scope event with
  | .ok scope => (scope.expand settings (.ofSource source)).outcome
  | .error error => .error error

/-- The event with the entries of every object in its fields in the order of their keys. -/
def Event.sorted (event : Event) : Event :=
  { event with record := Assoc.mapValues Json.Value.sorted event.record }

/-- A plain template for an event that has a value for each of its holes: literals that hold no
placeholder and no carriage return, holes that no keyword of the grammar names, fields that scripts
hold as they are, and none that hides a segment of the tag. -/
structure Suits (template : Plain) (event : Event) (hostname : String) : Prop where
  literals : ∀ literal ∈ template.literals, Template.IsLiteral literal
  begins : template.source.head? ≠ some '\n'
  holes : ∀ hole ∈ template.holes, hole.IsPlain
  names : ∀ name, .named name ∈ template.holes →
    name ∈ Assoc.keys event.record ∨ name = "tag" ∨ name = "hostname"
  indices : ∀ family index, .segment family index ∈ template.holes →
    -((Tag.parts event.tag).length : Int) ≤ index ∧ index < (Tag.parts event.tag).length
  exact : ∀ name value, .named name ∈ template.holes → Assoc.get? event.record name = some value →
    value.isFloat = false
  families : ∀ family ∈ Placeholder.families, family ∉ Assoc.keys event.record
  segments : ∀ family ∈ Placeholder.families, ∀ index : Int,
    -((Tag.parts event.tag).length : Int) ≤ index → index < (Tag.parts event.tag).length →
      Placeholder.segmentName family index ∉ Assoc.keys event.record
  distinct : (Assoc.keys event.record).Nodup
  portable : ∀ field ∈ event.record, field.2.IsPortable

/-- The value that an event has for a hole. -/
def holeValue? (event : Event) (hostname : String) : Hole → Option Json.Value
  | .named name => (Assoc.get? event.record name).or
      (Assoc.get? [("tag", .text event.tag), ("hostname", .text hostname)] name)
  | .segment _ index => (Tag.part? (Tag.parts event.tag) index).map .text

variable {template : Plain} {event : Event} {hostname : String}

theorem Suits.value (suits : Suits template event hostname) {hole : Hole}
    (member : hole ∈ template.holes) :
    ∃ value, holeValue? event hostname hole = some value ∧ value.IsPortable ∧
      value.isFloat = false := by
  cases hole with
  | named name =>
    cases found : Assoc.get? event.record name with
    | some value =>
      refine ⟨value, by rw [holeValue?, found]; rfl, ?_, suits.exact name value member found⟩
      exact suits.portable _ (Assoc.mem_of_get?_eq_some found)
    | none =>
      have absent := (Assoc.get?_eq_none_iff event.record name).mp found
      rcases suits.names name member with known | rfl | rfl
      · exact absurd known absent
      · exact ⟨.text event.tag, by rw [holeValue?, found]; rfl, trivial, rfl⟩
      · exact ⟨.text hostname, by rw [holeValue?, found]; rfl, trivial, rfl⟩
  | segment family index =>
    have inside := (Tag.isSome_part?_iff _ index).mpr (suits.indices family index member)
    obtain ⟨part, found⟩ := Option.isSome_iff_exists.mp inside
    exact ⟨.text part, by rw [holeValue?, found]; rfl, trivial, rfl⟩

/-- A named hole has the value of a field, or no field hides its reserved value. -/
theorem Suits.named_cases (suits : Suits template event hostname) {name : String}
    (member : .named name ∈ template.holes) {value : Json.Value}
    (found : holeValue? event hostname (.named name) = some value) :
    Assoc.get? event.record name = some value ∨ Assoc.get? event.record name = none ∧
      (name = "tag" ∧ value = .text event.tag ∨ name = "hostname" ∧ value = .text hostname) := by
  rw [holeValue?] at found
  cases known : Assoc.get? event.record name with
  | some field =>
    rw [known] at found
    exact Or.inl found
  | none =>
    rw [known] at found
    refine Or.inr ⟨rfl, ?_⟩
    rcases suits.names name member with field | rfl | rfl
    · exact absurd field ((Assoc.get?_eq_none_iff event.record name).mp known)
    · exact Or.inl ⟨rfl, (Option.some.inj found).symm⟩
    · exact Or.inr ⟨rfl, (Option.some.inj found).symm⟩

/-! ## Looking up placeholders -/

theorem Suits.get?_build (suits : Suits template event hostname) {hole : Hole}
    (member : hole ∈ template.holes) {value : Json.Value}
    (found : holeValue? event hostname hole = some value) :
    Assoc.get? (Placeholder.Table.build event.sorted hostname) hole.token = some value.sorted := by
  have distinct : (Assoc.keys event.sorted.record).Nodup := by
    rw [Event.sorted, Assoc.keys_mapValues]
    exact suits.distinct
  rw [Hole.token, Placeholder.Table.get?_build, Assoc.get?_reverse distinct]
  simp only [Event.sorted, Assoc.get?_mapValues]
  cases hole with
  | named name =>
    have unindexed : '[' ∉ name.toList := fun inside => by
      cases (suits.holes _ member).2.1 _ inside
    rw [Hole.inner, Placeholder.get?_allSegmentEntries_unindexed _ unindexed]
    rcases suits.named_cases member found with known | ⟨absent, ⟨rfl, rfl⟩ | ⟨rfl, rfl⟩⟩
    · rw [known]
      rfl
    · rw [absent]
      rfl
    · rw [absent]
      rfl
  | segment family index =>
    have plain : family ∈ Placeholder.families := suits.holes _ member
    obtain ⟨below, above⟩ := suits.indices family index member
    have absent := (Assoc.get?_eq_none_iff event.record _).mpr
      (suits.segments family plain index below above)
    obtain ⟨part, located, rfl⟩ := Option.map_eq_some_iff.mp found
    rw [Hole.inner, absent, Placeholder.get?_allSegmentEntries plain, located]
    rfl

def holeText (event : Event) (hostname : String) (hole : Hole) : List Char :=
  ((holeValue? event hostname hole).getD .null).sorted.asText.toList

/-- What a template gives: the value of its only hole, or a text. -/
def valueOf (event : Event) (hostname : String) (typecast : Bool) (whole read : Plain) :
    Json.Value :=
  match if typecast then whole.single? else none with
  | some hole => ((holeValue? event hostname hole).getD .null).sorted
  | none => .text (String.ofList (read.render (holeText event hostname)))

private theorem join_pieceText {template : Plain} {table : Placeholder.Table}
    {text : Hole → List Char}
    (known : ∀ hole ∈ template.holes, ∃ value : Json.Value,
      Assoc.get? table hole.token = some value ∧ value.asText.toList = text hole) :
    String.join ((template.pieces.map (pieceText table)).map Prod.fst) =
      String.ofList (template.render text) := by
  have literalCase : ∀ literal : List Char,
      String.join (((Template.literalOf literal.reverse).map (pieceText table)).map Prod.fst) =
        String.ofList literal := by
    intro literal
    unfold Template.literalOf
    split
    next empty =>
      rw [List.reverse_eq_nil_iff.mp (List.isEmpty_iff.mp empty)]
      rfl
    next => simp [pieceText]
  induction template with
  | last literal => exact literalCase literal
  | more literal hole rest ih =>
    obtain ⟨value, found, same⟩ := known hole List.mem_cons_self
    have others := ih fun hole member => known hole (List.mem_cons_of_mem _ member)
    have first : (pieceText table (.placeholder hole.token)).1 = String.ofList (text hole) := by
      rw [pieceText, found, ← same, String.ofList_toList]
    rw [Plain.pieces, Plain.render, List.map_append, List.map_append, String.join_append,
      literalCase, List.map_cons, List.map_cons, String.join_cons, first, others,
      String.ofList_append, String.ofList_append]

private theorem mem_holes_of_chosen {typecast : Bool} {hole : Hole}
    (chosen : (if typecast then template.single? else none) = some hole) :
    hole ∈ template.holes := by
  cases typecast with
  | false => cases chosen
  | true =>
    rw [if_pos rfl] at chosen
    unfold Plain.single? at chosen
    split at chosen
    next => cases chosen; exact List.mem_cons_self
    next => cases chosen

theorem Suits.expand_placeholder [Host] (suits : Suits template event hostname) (typecast : Bool) :
    (⟨.placeholder, hostname, typecast⟩ : Settings).expand event.sorted
        (String.ofList template.source) =
      .ok (valueOf event hostname typecast template template) := by
  have pieces := Template.pieces_source suits.literals suits.holes
  have known : ∀ hole ∈ template.holes, ∃ value : Json.Value,
      Assoc.get? (Placeholder.Table.build event.sorted hostname) hole.token = some value ∧
        value.asText.toList = holeText event hostname hole := by
    intro hole member
    obtain ⟨value, found, _⟩ := suits.value member
    refine ⟨value.sorted, suits.get?_build member found, ?_⟩
    rw [holeText, found]
    rfl
  have whole : (⟨.placeholder, hostname, typecast⟩ : Settings).expand event.sorted
      (String.ofList template.source) = .ok (expandPieces typecast
        (Placeholder.Table.build event.sorted hostname)
        (Template.pieces (String.ofList template.source))).1 := rfl
  have choice : (if typecast then template.single?.map Hole.token else none) =
      (if typecast then template.single? else none).map Hole.token := by
    cases typecast <;> rfl
  rw [whole, pieces, expandPieces, valueOf, Template.single?_pieces, choice]
  cases chosen : (if typecast then template.single? else none) with
  | none =>
    dsimp only [Option.map_none]
    rw [join_pieceText known]
  | some hole =>
    have member := mem_holes_of_chosen chosen
    obtain ⟨value, found, _⟩ := suits.value member
    dsimp only [Option.map_some]
    rw [suits.get?_build member found, found]
    rfl

/-! ## Running scripts -/

theorem binding?_fields (entries : Record) {name : String}
    (bindable : isBindable name = true) :
    Script.binding? ((bindableFields entries).map fun field =>
        Script.Binding.fixed field.1 (Script.Value.ofJson field.2)) name =
      (Assoc.get? entries name).map fun value =>
        Script.Binding.fixed name (Script.Value.ofJson value) := by
  induction entries with
  | nil => rfl
  | cons entry rest ih =>
    obtain ⟨key, value⟩ := entry
    rw [Script.binding?, bindableFields] at ih ⊢
    by_cases same : key = name
    · subst same
      simp [Assoc.get?, bindable, Script.Binding.fixed]
    · have other : (key == name) = false := beq_eq_false_iff_ne.mpr same
      cases kept : isBindable key with
      | true => simpa [Assoc.get?, same, kept, Script.Binding.fixed, other] using ih
      | false => simpa [Assoc.get?, same, kept] using ih

def reservedBindings (event : Event) (hostname : String) : Script.Bindings :=
  let parts := Script.Value.array ((Tag.parts event.tag).map .text)
  [.fixed "hostname" (.text hostname), .fixed "time" (.time event.time), .fixed "tag_parts" parts,
    .fixed "tags" parts, .fixed "tag" (.text event.tag)]

/-- A name is bound to the field of that name, else to what is reserved for it. -/
theorem binding?_event (distinct : (Assoc.keys event.record).Nodup) {name : String}
    (bindable : isBindable name = true) :
    Script.binding? (eventBindings event hostname) name =
      ((Assoc.get? event.record name).map fun value =>
        Script.Binding.fixed name (Script.Value.ofJson value)).or
          (Script.binding? (reservedBindings event hostname) name) := by
  have fields := binding?_fields event.record.reverse bindable
  rw [Assoc.get?_reverse distinct] at fields
  rw [← fields, eventBindings, Script.binding?, List.find?_append, ← List.map_reverse,
    bindableFields, bindableFields, List.filter_reverse]
  rfl

private theorem isBindable_of_isNameChar {name : String} (filled : name ≠ "")
    (letters : ∀ char ∈ name.toList, Template.isNameChar char = true) :
    isBindable name = true := by
  unfold isBindable
  split
  next empty => exact absurd (String.toList_eq_nil_iff.mp empty) filled
  next first rest written =>
    rw [written] at letters
    rw [Bool.and_eq_true, List.all_eq_true]
    exact ⟨Script.isNameStart_of_isNameChar (letters first List.mem_cons_self), fun char member =>
      Script.isNamePart_of_isNameChar (letters char (List.mem_cons_of_mem _ member))⟩

private theorem itemAt?_parts {parts : List String} {index : Int} {part : String}
    (found : Tag.part? parts index = some part) :
    Script.itemAt? (parts.map Script.Value.text) index = some (.text part) := by
  unfold Tag.part? at found
  unfold Script.itemAt?
  simp only [List.length_map]
  dsimp only at found
  generalize (if index < 0 then Int.ofNat parts.length + index else index) = resolved at found ⊢
  split at found
  next bounds =>
    rw [Bool.and_eq_true, decide_eq_true_eq, decide_eq_true_eq] at bounds
    rw [if_pos bounds.1, List.getElem?_map, found]
    rfl
  next => cases found

private theorem Suits.evalExpr_named (suits : Suits template event hostname) {name : String}
    (member : .named name ∈ template.holes) {value : Json.Value}
    (found : holeValue? event hostname (.named name) = some value) (machine : Script.Machine) :
    Script.Yields (eventBindings event hostname) 1 (Script.evalExpr machine .unit (.variable name))
      (Script.Value.ofJson value) := by
  obtain ⟨filled, letters, _⟩ := suits.holes _ member
  have bound : Script.binding? (eventBindings event hostname) name =
      some (.fixed name (Script.Value.ofJson value)) := by
    rw [binding?_event suits.distinct (isBindable_of_isNameChar filled letters)]
    rcases suits.named_cases member found with known | ⟨absent, ⟨rfl, rfl⟩ | ⟨rfl, rfl⟩⟩
    · rw [known]
      rfl
    · rw [absent]
      rfl
    · rw [absent]
      rfl
  exact Script.evalExpr_variable .unit bound

private theorem Suits.binding?_family (suits : Suits template event hostname) {family : String}
    (plain : family ∈ Placeholder.families) :
    Script.binding? (eventBindings event hostname) family =
      some (.fixed family (.array ((Tag.parts event.tag).map .text))) := by
  have absent := (Assoc.get?_eq_none_iff event.record _).mpr (suits.families family plain)
  simp only [Placeholder.families, List.mem_cons, List.not_mem_nil, or_false] at plain
  rcases plain with rfl | rfl
  · rw [binding?_event suits.distinct (by decide), absent]
    rfl
  · rw [binding?_event suits.distinct (by decide), absent]
    rfl

theorem Suits.evalExpr_hole (suits : Suits template event hostname) {hole : Hole}
    (member : hole ∈ template.holes) {value : Json.Value}
    (found : holeValue? event hostname hole = some value) {expr : Script.Expr}
    (read : Script.holeExpr? hole = some expr) (machine : Script.Machine) :
    ∃ count, Script.Yields (eventBindings event hostname) count
      (Script.evalExpr machine .unit expr) (Script.Value.ofJson value) := by
  cases hole with
  | named name =>
    obtain ⟨_, _, noKeyword, noReserved⟩ := suits.holes _ member
    rw [Script.holeExpr?] at read
    split at read
    next word token =>
      cases read
      rcases Script.wordToken?_plain noKeyword noReserved token with same | same
      · cases same
      · cases same
        exact ⟨1, suits.evalExpr_named member found machine⟩
    next => cases read
  | segment family index =>
    obtain ⟨part, located, rfl⟩ := Option.map_eq_some_iff.mp found
    rw [Script.holeExpr?] at read
    split at read
    next =>
      cases read
      exact ⟨2, Script.evalExpr_segment .unit (suits.binding?_family (suits.holes _ member))
        (itemAt?_parts located)⟩
    next => cases read

/-- A template that has a value as a script compiles to a script that has it. -/
theorem Settings.expand_expression_ok [Host] {typecast : Bool} {source : String}
    {value : Json.Value}
    (expanded : (⟨.expression, hostname, typecast⟩ : Settings).expand event source = .ok value) :
    ∃ script result, Script.compile? (String.ofList (Template.rewrite typecast source.toList)) =
        some script ∧
      (script.run (Host.answers event 0) (eventBindings event hostname)).1 = .ok result ∧
      value = result.toJson := by
  rw [Settings.expand, Settings.scope] at expanded
  dsimp only at expanded
  split at expanded
  next scope within =>
    split at within
    next =>
      cases within
      rw [Scope.expand, Template.withScript, Template.ofSource] at expanded
      dsimp only at expanded
      cases compiled : Script.compile?
          (String.ofList (Template.rewrite typecast source.toList)) with
      | none =>
        rw [compiled] at expanded
        cases expanded
      | some script =>
        rw [compiled] at expanded
        dsimp only at expanded
        cases ran : script.run (Host.answers event 0) (eventBindings event hostname) with
        | mk outcome after =>
          rw [ran] at expanded
          cases outcome with
          | ok result =>
            cases expanded
            exact ⟨script, result, rfl, congrArg Prod.fst ran, rfl⟩
          | error fault => cases expanded
    next => cases within
  next => cases expanded

theorem Settings.isInRange_of_expand [Host] {typecast : Bool} {source : String} {value : Json.Value}
    (expanded : (⟨.expression, hostname, typecast⟩ : Settings).expand event source = .ok value) :
    Calendar.isInRange event.time = true := by
  rw [Settings.expand, Settings.scope] at expanded
  cases within : Calendar.isInRange event.time with
  | true => rfl
  | false =>
    rw [within] at expanded
    cases expanded

/-- What a template gives that compiles to a script. -/
theorem Settings.expand_of_compile? [Host] {typecast : Bool} {source : String}
    {script : Script.Compiled} (inRange : Calendar.isInRange event.time = true)
    (compiled : Script.compile? (String.ofList (Template.rewrite typecast source.toList)) =
      some script) :
    (⟨.expression, hostname, typecast⟩ : Settings).expand event source =
      match (script.run (Host.answers event 0) (eventBindings event hostname)).1 with
      | .ok value => .ok value.toJson
      | .error fault => .error (.evaluation source (.script fault)) := by
  rw [Settings.expand, Settings.scope]
  dsimp only
  rw [if_pos inRange]
  dsimp only
  rw [Scope.expand, Template.withScript, Template.ofSource]
  dsimp only
  rw [compiled]
  dsimp only
  obtain ⟨outcome, after⟩ := script.run (Host.answers event 0) (eventBindings event hostname)
  cases outcome <;> rfl

def boundValue (event : Event) (hostname : String) (hole : Hole) : Script.Value :=
  Script.Value.ofJson ((holeValue? event hostname hole).getD .null)

private theorem render_congr {text other : Hole → List Char}
    (same : ∀ hole ∈ template.holes, text hole = other hole) :
    template.render text = template.render other := by
  induction template with
  | last literal => rfl
  | more literal hole rest ih =>
    rw [Plain.render, Plain.render, same hole List.mem_cons_self,
      ih fun hole member => same hole (List.mem_cons_of_mem _ member)]

/-- A script gives the values of its holes, and so the text of the template as it reads it. -/
theorem Suits.expand_expression [Host] (suits : Suits template event hostname) {typecast : Bool}
    {value : Json.Value}
    (expanded : (⟨.expression, hostname, typecast⟩ : Settings).expand event
      (String.ofList template.source) = .ok value) :
    value = valueOf event hostname typecast template template.scripted := by
  have held : ∀ hole ∈ template.holes, ∀ expr, Script.holeExpr? hole = some expr →
      ∀ machine, ∃ count, Script.Yields (eventBindings event hostname) count
        (Script.evalExpr machine .unit expr) (boundValue event hostname hole) := by
    intro hole member expr read machine
    obtain ⟨value, found, _⟩ := suits.value member
    rw [boundValue, found]
    exact suits.evalExpr_hole member found read machine
  obtain ⟨script, result, compiled, evaluated, rfl⟩ := Settings.expand_expression_ok expanded
  rw [Template.rewrite, String.toList_ofList,
    Template.singleHole?_source suits.literals suits.holes] at compiled
  have choice : (if typecast then template.single?.map fun hole => hole.inner.toList else none) =
      (if typecast then template.single? else none).map fun hole => hole.inner.toList := by
    cases typecast <;> rfl
  rw [choice] at compiled
  rw [valueOf]
  cases chosen : (if typecast then template.single? else none) with
  | some hole =>
    rw [chosen] at compiled
    have member := mem_holes_of_chosen chosen
    obtain ⟨expr, read, rfl⟩ := Script.compile?_hole (suits.holes hole member) compiled
    obtain ⟨field, found, portable, _⟩ := suits.value member
    obtain ⟨count, yields⟩ := held hole member expr read _
    rw [Script.Yields.run yields.counting] at evaluated
    split at evaluated
    next =>
      cases evaluated
      dsimp only
      rw [boundValue, found]
      exact Script.toJson_ofJson portable
    next => cases evaluated
  | none =>
    rw [chosen] at compiled
    obtain ⟨expr, read, rfl⟩ :=
      Script.compile?_template suits.literals suits.holes suits.begins compiled
    have text := Script.run_template read
      (fun hole member expr read => held hole (Script.mem_holes_of_scripted member) expr read _)
      evaluated
    rw [text]
    refine congrArg (fun text => Json.Value.text (String.ofList text)) (render_congr ?_)
    intro hole member
    obtain ⟨field, found, portable, exact⟩ := suits.value (Script.mem_holes_of_scripted member)
    rw [boundValue, holeText, found]
    exact congrArg String.toList (Script.printed_ofJson portable exact)

/-! ## Agreement -/

/-- A literal of the template before a hole ends in a backslash. -/
def Template.Plain.isEscaped : Plain → Bool
  | .last _ => false
  | .more literal _ rest => Template.escapes literal || rest.isEscaped

private theorem render_prepend (text : Hole → List Char) (front : List Char) (template : Plain) :
    (template.prepend front).render text = front ++ template.render text := by
  cases template with
  | last literal => rfl
  | more literal hole rest =>
    rw [Plain.prepend, Plain.render, Plain.render, List.append_assoc]

/-- A template reads the same as a script if no hole is escaped, whatever the texts of its
holes. -/
theorem Template.Plain.render_scripted_iff (text : Hole → List Char) (template : Plain) :
    template.scripted.render text = template.render text ↔ template.isEscaped = false := by
  induction template with
  | last literal => exact iff_of_true rfl rfl
  | more literal hole rest ih =>
    rw [Plain.scripted, Plain.isEscaped, Bool.or_eq_false_iff]
    cases escaped : Template.escapes literal with
    | false =>
      rw [if_neg Bool.false_ne_true, Plain.render, Plain.render, List.append_cancel_left_eq,
        List.append_cancel_left_eq, ih]
      exact (and_iff_right rfl).symm
    | true =>
      refine iff_of_false ?_ (fun both => by cases both.1)
      obtain ⟨front, rfl⟩ := List.getLast?_eq_some_iff.mp (beq_iff_eq.mp escaped)
      rw [if_pos rfl, render_prepend, List.dropLast_concat, Plain.render, Hole.token,
        Template.toList_token, List.append_assoc, List.append_assoc, List.append_cancel_left_eq]
      -- The dollar sign of the hole stands where the backslash is.
      intro same
      cases same

theorem isEscaped_of_chosen {typecast : Bool} {hole : Hole}
    (chosen : (if typecast then template.single? else none) = some hole) :
    template.isEscaped = false := by
  cases typecast with
  | false => cases chosen
  | true =>
    rw [if_pos rfl] at chosen
    unfold Plain.single? at chosen
    split at chosen
    next => rfl
    next => cases chosen

/-- The value of a template as a script is that of its placeholders, with the entries of every
object in order, exactly if no literal before a hole ends in a backslash. -/
theorem Suits.modes_agree_iff [Host] (suits : Suits template event hostname) {typecast : Bool}
    {value : Json.Value}
    (expanded : (⟨.expression, hostname, typecast⟩ : Settings).expand event
      (String.ofList template.source) = .ok value) :
    (⟨.placeholder, hostname, typecast⟩ : Settings).expand event.sorted
        (String.ofList template.source) = .ok value ↔ template.isEscaped = false := by
  rw [suits.expand_placeholder, suits.expand_expression expanded, Except.ok.injEq, valueOf, valueOf]
  cases chosen : (if typecast then template.single? else none) with
  | some hole => exact iff_of_true rfl (isEscaped_of_chosen chosen)
  | none =>
    dsimp only
    rw [Json.Value.text.injEq, String.ofList_inj, eq_comm]
    exact Plain.render_scripted_iff _ template

private theorem suits_sample {char : Char} (shown : char ≠ '\r' ∧ char ≠ '\n') :
    Suits (.more [char] (.named "n") (.last [])) ⟨"a", 0, [("n", .int 1)]⟩ "h" where
  literals := by
    have short : ∀ {part text : List Char}, text.length ≤ 1 → 2 ≤ part.length →
        ¬ part <:+: text := by
      intro part text bound long within
      have := within.length_le
      omega
    intro literal member
    have bound : literal.length ≤ 1 ∧ '\r' ∉ literal := by
      simp only [Plain.literals, List.mem_cons, List.not_mem_nil, or_false] at member
      rcases member with rfl | rfl
      · exact ⟨Nat.le_refl _, by simpa using shown.1.symm⟩
      · exact ⟨Nat.zero_le _, List.not_mem_nil⟩
    refine ⟨short bound.1 (Nat.le_refl _), fun name _ _ => short bound.1 (by simp), bound.2⟩
  begins := fun first => shown.2 (Option.some.inj first)
  holes := by
    intro hole member
    rw [List.mem_singleton.mp member]
    refine ⟨by decide, ?_, by simp [Script.keywords], by simp [Script.reservedWords]⟩
    intro char member
    obtain rfl : char = 'n' := by simpa using member
    rfl
  names := by
    intro name member
    cases List.mem_singleton.mp member
    exact Or.inl List.mem_cons_self
  indices := by
    intro family index member
    cases List.mem_singleton.mp member
  exact := by
    intro name value member found
    cases List.mem_singleton.mp member
    cases found
    rfl
  families := by decide
  segments := by
    intro family known index _ _ member
    have same := congrArg String.toList (List.mem_singleton.mp member)
    rw [Template.toList_segmentName] at same
    have length := congrArg List.length same
    simp at length
    omega
  distinct := by decide
  portable := by
    intro field member
    rw [List.mem_singleton.mp member]
    rfl

/-- A backslash before a hole is kept by one mode and taken as an escape by the other. -/
theorem modes_agree_iff_backslash :
    let event : Event := ⟨"a", 0, [("n", .int 1)]⟩
    let script : Settings := ⟨.expression, "h", true⟩
    let table : Settings := ⟨.placeholder, "h", true⟩
    (script.expand event "-$\x7bn\x7d" = .ok (.text "-1") ∧
        table.expand event.sorted "-$\x7bn\x7d" = .ok (.text "-1")) ∧
      script.expand event "\\$\x7bn\x7d" = .ok (.text "$\x7bn\x7d") ∧
        table.expand event.sorted "\\$\x7bn\x7d" ≠ .ok (.text "$\x7bn\x7d") := by
  have kept := (suits_sample (by decide)).modes_agree_iff
    (show (⟨.expression, "h", true⟩ : Settings).expand _ (String.ofList (Plain.source
      (.more ['-'] (.named "n") (.last [])))) = .ok (.text "-1") by cbv)
  have taken := (suits_sample (by decide)).modes_agree_iff
    (show (⟨.expression, "h", true⟩ : Settings).expand _ (String.ofList (Plain.source
      (.more ['\\'] (.named "n") (.last [])))) = .ok (.text "$\x7bn\x7d") by cbv)
  refine ⟨⟨by cbv, kept.mpr rfl⟩, by cbv, fun same => ?_⟩
  cases taken.mp same

end Recast
