import Mathlib
import Recast.Proofs.CompilingAhead
import Recast.Proofs.TokenTable

set_option autoImplicit false

/-!
# What placeholders reveal

A token reads the field that it names and no other, and what it reads is not searched for tokens
again. So an engine that starts from an empty record hands on nothing of a record but the fields
that its templates name.
-/

namespace Recast

/-! ## Look-up -/

namespace Placeholder

/-- The token names a field: it holds the name, or it is the legacy token for it. -/
def Names (token name : String) : Prop :=
  token = Placeholder.token name ∨ (token, Placeholder.token name) ∈ legacyTokens

/-- A token that holds a name names it only. -/
theorem names_token {name other : String} (names : Names (Placeholder.token name) other) :
    name = other := by
  rcases names with same | legacy
  · exact token_injective _ _ same
  · exact absurd rfl (legacy_ne_token legacy name)

variable {first second : Table}

/-- Tables that agree on a token and on the names that it stands for agree on it after the legacy
tokens have been added. -/
theorem get?_foldl_addLegacy {listed : List (String × String)} (known : listed ⊆ legacyTokens)
    {token : String} (same : Assoc.get? first token = Assoc.get? second token)
    (named : ∀ name, Names token name →
      Assoc.get? first (Placeholder.token name) = Assoc.get? second (Placeholder.token name)) :
    Assoc.get? (listed.foldl addLegacy first) token =
      Assoc.get? (listed.foldl addLegacy second) token := by
  induction listed generalizing first second with
  | nil => exact same
  | cons legacy rest ih =>
    have member := known List.mem_cons_self
    rw [List.foldl_cons, List.foldl_cons]
    apply ih fun _ later => known (List.mem_cons_of_mem _ later)
    · rw [get?_addLegacy_any, get?_addLegacy_any, same]
      split
      next standsIn =>
        have stands : ∀ legacy ∈ legacyTokens, ∃ name, legacy.2 = Placeholder.token name := by
          simp [legacyTokens]
        obtain ⟨name, current⟩ := stands legacy member
        rw [current, named name (Or.inr (by rw [← standsIn, ← current]; exact member))]
      next => rfl
    · intro name names
      rw [get?_addLegacy first member, get?_addLegacy second member]
      exact named name names

private theorem get?_insertAll_fields_eq (table : Table) {record other : Record} {token : String}
    (agree : ∀ name, token = Placeholder.token name →
      Assoc.get? record.reverse name = Assoc.get? other.reverse name) :
    let fields (record : Record) := record.map fun field => (Placeholder.token field.1, field.2)
    Assoc.get? (Assoc.insertAll table (fields record)) token =
      Assoc.get? (Assoc.insertAll table (fields other)) token := by
  dsimp only
  rw [Assoc.get?_insertAll, Assoc.get?_insertAll, ← List.map_reverse, ← List.map_reverse]
  by_cases holds : ∃ name, token = Placeholder.token name
  · obtain ⟨name, rfl⟩ := holds
    rw [Assoc.get?_map_key token_injective, Assoc.get?_map_key token_injective, agree name rfl]
  · have absent : ∀ record : Record,
        Assoc.get? (record.map fun field => (Placeholder.token field.1, field.2)) token = none := by
      intro record
      rw [Assoc.get?_eq_none_iff]
      intro member
      rw [Assoc.keys, List.map_map] at member
      obtain ⟨field, _, same⟩ := List.mem_map.mp member
      exact holds ⟨field.1, same.symm⟩
    rw [absent, absent]

/-- Records that agree on what a token names cannot be told apart by it. -/
theorem Table.get?_build_eq {event other : Event} (tag : event.tag = other.tag)
    (time : event.time = other.time) (hostname : String) {token : String}
    (agree : ∀ name, Names token name →
      Assoc.get? event.record.reverse name = Assoc.get? other.record.reverse name) :
    Assoc.get? (build event hostname) token = Assoc.get? (build other hostname) token := by
  unfold build
  rw [tag, time]
  apply get?_foldl_addLegacy (List.Subset.refl _)
  · exact get?_insertAll_fields_eq _ fun name holds => agree name (Or.inl holds)
  · intro name names
    exact get?_insertAll_fields_eq _ fun _ holds => token_injective _ _ holds ▸ agree name names

end Placeholder

/-! ## Expansion -/

section Expansion

variable {settings : Settings} {first second : Placeholder.Table}

theorem expandPieces_eq {pieces : List Template.Piece}
    (same : ∀ token, .placeholder token ∈ pieces → Assoc.get? first token = Assoc.get? second token)
    (typecast : Bool) :
    expandPieces typecast first pieces = expandPieces typecast second pieces := by
  have texts : pieces.map (pieceText first) = pieces.map (pieceText second) := by
    apply List.map_congr_left
    intro piece member
    cases piece with
    | literal text => rfl
    | placeholder token => simp only [pieceText, same token member]
  unfold expandPieces
  rw [texts]
  split
  next token single =>
    obtain ⟨_, single⟩ := Option.ite_none_right_eq_some.mp single
    obtain rfl := Template.eq_of_single? single
    rw [same token List.mem_cons_self]
  next => rfl

/-- A template of whose tokens two tables give the same expands alike in both. -/
theorem Scope.expand_placeholders_eq {template : Template}
    (coherent : template.Coherent settings.typecast)
    (same : ∀ token, .placeholder token ∈ Template.pieces template.source →
      Assoc.get? first token = Assoc.get? second token) :
    let left := (Scope.placeholders first).expand settings template
    let right := (Scope.placeholders second).expand settings template
    left.outcome = right.outcome ∧ left.unknown = right.unknown ∧
      left.scope = .placeholders first ∧ right.scope = .placeholders second := by
  have pieces : template.withPieces.1 = Template.pieces template.source := coherent.withPieces_eq
  have alike := expandPieces_eq same settings.typecast
  simp only [expand, pieces, alike, and_self]

theorem expandFields_placeholders_eq {fields : FieldMap}
    (coherent : fields.Coherent settings.typecast)
    (same : ∀ field ∈ fields, ∀ token, .placeholder token ∈ Template.pieces field.2.source →
      Assoc.get? first token = Assoc.get? second token) :
    (expandFields settings (.placeholders first) fields).outcome =
        (expandFields settings (.placeholders second) fields).outcome ∧
      (expandFields settings (.placeholders first) fields).unknown =
        (expandFields settings (.placeholders second) fields).unknown := by
  induction fields with
  | nil => exact ⟨rfl, rfl⟩
  | cons field rest ih =>
    obtain ⟨key, template⟩ := field
    obtain ⟨coherentHere, coherentRest⟩ := FieldMap.coherent_cons.mp coherent
    obtain ⟨sameHere, sameRest⟩ := List.forall_mem_cons.mp same
    obtain ⟨outcome, unknown, left, right⟩ := Scope.expand_placeholders_eq coherentHere sameHere
    obtain ⟨outcomes, unknowns⟩ := ih coherentRest sameRest
    simp only [expandFields, outcome, unknown, left, right]
    cases ((Scope.placeholders second).expand settings template).outcome with
    | error error => exact ⟨rfl, rfl⟩
    | ok value => simp only [outcomes, unknowns, and_self]

end Expansion

/-! ## Engines -/

namespace Engine

/-- A token of a template of the engine names the field. -/
def Reads (engine : Engine) (name : String) : Prop :=
  ∃ source ∈ engine.sources, ∃ token, .placeholder token ∈ Template.pieces source ∧
    Placeholder.Names token name

theorem Coherent.transform_eq_of_agree [Host] {engine : Engine} (coherent : engine.Coherent)
    (mode : engine.settings.mode = .placeholder) (renew : engine.renew = true)
    {event other : Event} (tag : event.tag = other.tag) (time : event.time = other.time)
    (agree : ∀ name, engine.Reads name →
      Assoc.get? event.record.reverse name = Assoc.get? other.record.reverse name) :
    (engine.transform event).outcome = (engine.transform other).outcome ∧
      (engine.transform event).unknown = (engine.transform other).unknown := by
  have scope : ∀ event, engine.settings.scope event =
      .ok (.placeholders (Placeholder.Table.build event engine.settings.hostname)) := by
    intro event
    rw [Settings.scope, mode]
  have look : ∀ template ∈ engine.templates, ∀ token,
      .placeholder token ∈ Template.pieces template.source →
      Assoc.get? (Placeholder.Table.build event engine.settings.hostname) token =
        Assoc.get? (Placeholder.Table.build other engine.settings.hostname) token := by
    intro template member token piece
    apply Placeholder.Table.get?_build_eq tag time
    intro name names
    exact agree name ⟨_, List.mem_map_of_mem member, token, piece, names⟩
  have fieldsLook : ∀ field ∈ engine.fields, ∀ token,
      .placeholder token ∈ Template.pieces field.2.source →
      Assoc.get? (Placeholder.Table.build event engine.settings.hostname) token =
        Assoc.get? (Placeholder.Table.build other engine.settings.hostname) token :=
    fun field member => look field.2 (List.mem_cons_of_mem _ (List.mem_map_of_mem member))
  obtain ⟨tagOutcome, tagUnknown, left, right⟩ :=
    Scope.expand_placeholders_eq coherent.outputTag (look engine.outputTag List.mem_cons_self)
  obtain ⟨outcome, unknown⟩ := expandFields_placeholders_eq coherent.fields fieldsLook
  simp only [transform, scope, tagOutcome, tagUnknown, left, right, outcome, unknown, tag, time]
  cases ((Scope.placeholders (Placeholder.Table.build other engine.settings.hostname)).expand
      engine.settings engine.outputTag).outcome with
  | error error => exact ⟨rfl, rfl⟩
  | ok tagValue =>
    dsimp only
    cases (expandFields engine.settings (.placeholders (Placeholder.Table.build other
        engine.settings.hostname)) engine.fields).outcome with
    | error error => exact ⟨rfl, rfl⟩
    | ok values =>
      -- An engine that renews does not look at the record once the templates are expanded.
      simp only [assemble, renew, if_true, and_self]

/-- Looking up placeholders in new records reveals the fields that the templates name and no other:
events of one tag and one time whose records agree on these fields come out as the same event, with
the same placeholders not found. -/
theorem transform_reveals_named_fields [Host] (outputTag : String) (settings : Settings)
    (mode : settings.mode = .placeholder) (fields : List (String × String))
    (removeKeys : Option RemoveKeys) (calls : List Call) {event other : Event}
    (tag : event.tag = other.tag) (time : event.time = other.time)
    (distinct : (Assoc.keys event.record).Nodup) (otherDistinct : (Assoc.keys other.record).Nodup)
    (agree : ∀ name, (build outputTag settings fields removeKeys true).Reads name →
      Assoc.get? event.record name = Assoc.get? other.record name) :
    let engine := (build outputTag settings fields removeKeys true).after calls
    ∃ out, (engine.transform event).outcome = .ok out ∧ (engine.transform other).outcome = .ok out ∧
      (engine.transform event).unknown = (engine.transform other).unknown := by
  intro engine
  have built := coherent_build outputTag settings fields removeKeys true
  have continues : engine.Continues (build outputTag settings fields removeKeys true) :=
    built.continues_after calls
  have sameSettings : engine.settings = settings := continues.settings_eq
  have renews : engine.renew = true := by
    have same := congrArg Engine.renew continues.bare_eq
    exact same
  rw [← sameSettings] at mode
  have sameReads : ∀ name, engine.Reads name →
      Assoc.get? event.record.reverse name = Assoc.get? other.record.reverse name := by
    intro name reads
    rw [Assoc.get?_reverse distinct, Assoc.get?_reverse otherDistinct]
    rw [Reads, continues.sources_eq] at reads
    exact agree name reads
  obtain ⟨same, unknown⟩ :=
    continues.coherent.transform_eq_of_agree mode renews tag time sameReads
  obtain ⟨out, succeeded⟩ := transform_of_placeholder mode event
  exact ⟨out, succeeded, same ▸ succeeded, unknown⟩

/-- Of a record only the user can be told: not the secret whose token the name of the user spells,
and not the fields that are spelt like tokens. -/
theorem transform_reveals_named_fields_user :
    let engine := (build "t.$\x7btags[0]\x7d" ⟨.placeholder, "h", true⟩
      [("u", "$\x7buser\x7d@__HOSTNAME__")] none true).after []
    let event : Event := ⟨"a.b", 0, [("secret", .int 1), ("user", .text "$\x7bsecret\x7d")]⟩
    let other : Event := ⟨"a.b", 0, [("user", .text "$\x7bsecret\x7d"), ("__HOSTNAME__", .int 2)]⟩
    (engine.transform event).outcome = .ok ⟨"t.a", 0, [("u", .text "$\x7bsecret\x7d@h")]⟩ ∧
      (engine.transform other).outcome = .ok ⟨"t.a", 0, [("u", .text "$\x7bsecret\x7d@h")]⟩ := by
  intro engine event other
  have reads : ∀ name, (build "t.$\x7btags[0]\x7d" ⟨.placeholder, "h", true⟩
      [("u", "$\x7buser\x7d@__HOSTNAME__")] none true).Reads name →
      name = "tags[0]" ∨ name = "user" ∨ name = "hostname" := by
    rintro name ⟨source, member, token, piece, names⟩
    have tokens : token = Placeholder.token "tags[0]" ∨ token = Placeholder.token "user" ∨
        token = "__HOSTNAME__" := by
      have listed : (build "t.$\x7btags[0]\x7d" ⟨.placeholder, "h", true⟩
          [("u", "$\x7buser\x7d@__HOSTNAME__")] none true).sources.flatMap Template.pieces =
          [.literal "t.", .placeholder (Placeholder.token "tags[0]"),
            .placeholder (Placeholder.token "user"), .literal "@",
            .placeholder "__HOSTNAME__"] := by
        cbv
      have found := List.mem_flatMap.mpr ⟨source, member, piece⟩
      rw [listed] at found
      simpa using found
    rcases tokens with rfl | rfl | rfl
    · exact Or.inl (Placeholder.names_token names).symm
    · exact Or.inr (Or.inl (Placeholder.names_token names).symm)
    · refine Or.inr (Or.inr ?_)
      rcases names with holds | legacy
      · have known : ("__HOSTNAME__", Placeholder.token "hostname") ∈ Placeholder.legacyTokens := by
          decide
        exact absurd holds (Placeholder.legacy_ne_token known name)
      · have current : Placeholder.token name = Placeholder.token "hostname" := by
          simpa [Placeholder.legacyTokens] using legacy
        exact Placeholder.token_injective _ _ current
  have succeeded : (engine.transform event).outcome =
      .ok ⟨"t.a", 0, [("u", .text "$\x7bsecret\x7d@h")]⟩ := by cbv
  have agree : ∀ name, (build "t.$\x7btags[0]\x7d" ⟨.placeholder, "h", true⟩
      [("u", "$\x7buser\x7d@__HOSTNAME__")] none true).Reads name →
      Assoc.get? event.record name = Assoc.get? other.record name := by
    intro name read
    rcases reads name read with rfl | rfl | rfl <;> rfl
  obtain ⟨out, first, second, _⟩ := @transform_reveals_named_fields Host.still "t.$\x7btags[0]\x7d"
    ⟨.placeholder, "h", true⟩ rfl [("u", "$\x7buser\x7d@__HOSTNAME__")] none [] event other rfl rfl
    (by decide) (by decide) agree
  rw [succeeded] at first
  exact ⟨succeeded, second.trans first.symm⟩

end Engine

end Recast
