import Mathlib
import Recast.Config
import Recast.Proofs.FieldOrder

set_option autoImplicit false

/-!
# Accepted configurations

Which decoded configurations are accepted, and that every accepted one makes an engine: its fields
are the flat entries with the block merged into them, and its keys to remove are the pieces of the
list.
-/

namespace Recast

namespace Config

/-! ## Entries -/

/-- The text of a key. Tags of the application around a text do not count. -/
inductive IsKey : Yaml.Value → String → Prop where
  | text (name : String) : IsKey (.text name) name
  | tagged (tag : String) {value : Yaml.Value} {name : String} (inner : IsKey value name) :
      IsKey (.tagged tag value) name

/-- The source of a template: a scalar without a tag, as text. -/
inductive IsTemplate : Yaml.Value → String → Prop where
  | null : IsTemplate .null ""
  | yes : IsTemplate (.bool true) "true"
  | no : IsTemplate (.bool false) "false"
  | int (number : Int) : IsTemplate (.int number) (Yaml.intText number)
  | float (number : Float) : IsTemplate (.float number) (Yaml.floatText number)
  | text (content : String) : IsTemplate (.text content) content

/-- What an entry declares: an outgoing key and the source of its template. -/
def Declares (entry : Yaml.Value × Yaml.Value) (pair : String × String) : Prop :=
  IsKey entry.1 pair.1 ∧ IsTemplate entry.2 pair.2

theorem text?_eq_some_iff (value : Yaml.Value) (name : String) :
    value.text? = some name ↔ IsKey value name := by
  constructor
  · intro found
    fun_induction Yaml.Value.text? value with
    | case1 => cases found; exact .text _
    | case2 tag value ih => exact .tagged tag (ih found)
    | case3 => cases found
  · intro key
    induction key with
    | text => rfl
    | tagged tag _ ih => exact ih

theorem scalarText?_eq_some_iff (value : Yaml.Value) (source : String) :
    value.scalarText? = some source ↔ IsTemplate value source := by
  constructor
  · intro found
    cases value with
    | null => cases found; exact .null
    | bool flag => cases flag <;> cases found <;> constructor
    | int number => cases found; exact .int number
    | float number => cases found; exact .float number
    | text => cases found; exact .text _
    | sequence | mapping | tagged => cases found
  · rintro (_ | _) <;> rfl

/-- Entries are taken as pairs exactly if each of them declares its pair. -/
theorem pairs_eq_ok_iff (entries : List (Yaml.Value × Yaml.Value))
    (named : List (String × String)) :
    pairs entries = .ok named ↔ List.Forall₂ Declares entries named := by
  induction entries generalizing named with
  | nil => cases named <;> simp [pairs]
  | cons entry rest ih =>
    obtain ⟨key, value⟩ := entry
    constructor
    · intro taken
      simp only [pairs] at taken
      split at taken
      next => cases taken
      next name isKey =>
        split at taken
        next => cases taken
        next source isTemplate =>
          cases others : pairs rest with
          | error problem => simp [others, Except.map] at taken
          | ok tail =>
            simp only [others, Except.map, Except.ok.injEq] at taken
            subst taken
            exact .cons ⟨(text?_eq_some_iff key name).mp isKey,
              (scalarText?_eq_some_iff value source).mp isTemplate⟩ ((ih tail).mp others)
    · rintro (_ | ⟨⟨isKey, isTemplate⟩, others⟩)
      rw [pairs, (text?_eq_some_iff key _).mpr isKey]
      simp only [(scalarText?_eq_some_iff value _).mpr isTemplate, (ih _).mpr others, Except.map]

theorem exists_forall₂_declares {entries : List (Yaml.Value × Yaml.Value)}
    (declared : ∀ entry ∈ entries, ∃ pair, Declares entry pair) :
    ∃ named, List.Forall₂ Declares entries named := by
  induction entries with
  | nil => exact ⟨[], .nil⟩
  | cons entry rest ih =>
    rw [List.forall_mem_cons] at declared
    obtain ⟨pair, first⟩ := declared.1
    obtain ⟨named, others⟩ := ih declared.2
    exact ⟨pair :: named, .cons first others⟩

theorem exists_declares_of_mem {entries : List (Yaml.Value × Yaml.Value)}
    {named : List (String × String)} (declared : List.Forall₂ Declares entries named) :
    ∀ entry ∈ entries, ∃ pair, Declares entry pair := by
  induction declared with
  | nil => nofun
  | cons first _ ih => exact List.forall_mem_cons.mpr ⟨⟨_, first⟩, ih⟩

/-! ## Flat entries -/

/-- The names of settings, which are no outgoing keys. -/
def settingNames : List String :=
  ["type", "output_tag", "remove_keys", "renew_record", "enable_expression_mode", "enable_ruby",
    "auto_typecast", "hostname", "record"]

/-- Flat entries have names without tags, and none is the name of a setting. -/
def AreFlat (entries : List (Yaml.Value × Yaml.Value)) : Prop :=
  ∀ entry ∈ entries, ∃ name, entry.1 = .text name ∧ name ∉ settingNames

theorem areFlat_append {entries others : List (Yaml.Value × Yaml.Value)} (flat : AreFlat entries)
    (more : AreFlat others) : AreFlat (entries ++ others) :=
  List.forall_mem_append.mpr ⟨flat, more⟩

theorem AreFlat.exists_names {entries : List (Yaml.Value × Yaml.Value)} (flat : AreFlat entries) :
    ∃ names : List String, entries.map Prod.fst = names.map .text ∧
      ∀ name ∈ names, name ∉ settingNames := by
  induction entries with
  | nil => exact ⟨[], rfl, nofun⟩
  | cons entry rest ih =>
    obtain ⟨⟨name, isText, noSetting⟩, others⟩ := List.forall_mem_cons.mp flat
    obtain ⟨names, same, noSettings⟩ := ih others
    refine ⟨name :: names, ?_, List.forall_mem_cons.mpr ⟨noSetting, noSettings⟩⟩
    rw [List.map_cons, List.map_cons, isText, same]

theorem Partial.add_areFlat {settings after : Partial} {key : String} {value : Yaml.Node}
    (added : settings.add key value = some after) (flat : AreFlat settings.fields) :
    AreFlat after.fields := by
  unfold Partial.add at added
  split_ifs at added with kind tag keys renew expression typecast hostname block
  iterate 8
    next =>
      obtain ⟨_, _, rfl⟩ := Option.map_eq_some_iff.mp added
      exact flat
  next =>
    obtain ⟨value, _, rfl⟩ := Option.map_eq_some_iff.mp added
    have noSetting : key ∉ settingNames := by
      simp only [Bool.or_eq_true, decide_eq_true_eq, not_or] at expression
      simp [settingNames, kind, tag, keys, renew, expression, typecast, hostname, block]
    refine areFlat_append flat ?_
    intro entry member
    rw [List.mem_singleton] at member
    exact ⟨key, congrArg Prod.fst member, noSetting⟩

theorem Partial.addAll_areFlat {settings after : Partial} {entries : List (Yaml.Node × Yaml.Node)}
    (added : settings.addAll entries = some after) (flat : AreFlat settings.fields) :
    AreFlat after.fields := by
  induction entries generalizing settings with
  | nil => cases added; exact flat
  | cons entry rest ih =>
    obtain ⟨key, value⟩ := entry
    rw [Partial.addAll] at added
    split at added
    next => cases added
    next name _ =>
      split at added
      next => cases added
      next next step => exact ih added (Partial.add_areFlat step flat)

theorem nodup_of_areDistinct {names : List String}
    (distinct : Yaml.areDistinct (names.map Yaml.Value.text) = true) : names.Nodup := by
  induction names with
  | nil => exact List.nodup_nil
  | cons name rest ih =>
    simp only [List.map_cons, Yaml.areDistinct, Bool.and_eq_true, Bool.not_eq_true',
      List.any_eq_false, List.mem_map] at distinct
    refine List.nodup_cons.mpr ⟨fun member => ?_, ih distinct.2⟩
    have same : (Yaml.Value.text name).isSame (.text name) = true := by simp [Yaml.Value.isSame]
    exact distinct.1 _ ⟨name, member, rfl⟩ same

/-- The flat entries of decoded settings have distinct names, and none of them is a setting. -/
theorem exists_names_of_decoded {documents : List Yaml.Node} {config : Config}
    (decoded : ofDocuments? documents = some config) :
    ∃ names : List String, config.fields.map Prod.fst = names.map .text ∧ names.Nodup ∧
      ∀ name ∈ names, name ∉ settingNames := by
  have none : ∃ names : List String, Partial.none.toConfig.fields.map Prod.fst = names.map .text ∧
      names.Nodup ∧ ∀ name ∈ names, name ∉ settingNames := ⟨[], rfl, List.nodup_nil, nofun⟩
  unfold ofDocuments? at decoded
  split at decoded
  next => cases decoded; exact none
  next =>
    split at decoded
    next => cases decoded; exact none
    next => cases decoded
  next entries =>
    split at decoded
    next => cases decoded
    next settings added =>
      split at decoded
      next distinct =>
        cases decoded
        have flat : AreFlat settings.fields := Partial.addAll_areFlat added nofun
        obtain ⟨names, same, noSettings⟩ := flat.exists_names
        rw [same] at distinct
        exact ⟨names, same, nodup_of_areDistinct distinct, noSettings⟩
      next => cases decoded
  next => cases decoded

theorem map_fst_of_declares {entries : List (Yaml.Value × Yaml.Value)}
    {named : List (String × String)} (declared : List.Forall₂ Declares entries named)
    {names : List String} (same : entries.map Prod.fst = names.map .text) :
    named.map Prod.fst = names := by
  induction declared generalizing names with
  | nil => exact (List.map_eq_nil_iff.mp same.symm).symm
  | @cons entry pair entries named first _ ih =>
    obtain ⟨key, source⟩ := pair
    cases names with
    | nil => cases same
    | cons name names =>
      rw [List.map_cons, List.map_cons, List.cons.injEq] at same
      obtain ⟨isKey, _⟩ := first
      rw [same.1] at isKey
      cases isKey
      rw [List.map_cons, ih same.2]

/-! ## Acceptance -/

/-- What an accepted configuration has to be: an output tag that is not blank, no blank piece among
the keys to remove, and an outgoing key with a template in each entry. -/
structure Acceptable (config : Config) : Prop where
  outputTag : ∃ char ∈ config.outputTag.toList, Text.isBlank char = false
  removeKeys : ∀ list, config.removeKeys = some list →
    ∀ piece ∈ Text.splitAt ',' list.toList, ∃ char ∈ piece, Text.isBlank char = false
  entries : ∀ entry ∈ config.fields ++ config.block, ∃ pair, Declares entry pair

theorem isAllBlank_eq_false_iff (text : List Char) :
    Text.isAllBlank text = false ↔ ∃ char ∈ text, Text.isBlank char = false := by
  simp [Text.isAllBlank]

theorem isEmpty_trim_iff (piece : List Char) :
    (String.ofList (Text.trim piece)).isEmpty = false ↔
      ∃ char ∈ piece, Text.isBlank char = false := by
  have blank := Text.trim_eq_nil_iff piece
  rw [Bool.eq_false_iff, ne_eq, String.isEmpty_iff, String.ofList_eq_empty_iff, blank]
  simp

/-- Keys to remove are all there exactly if no piece of their list is blank. -/
theorem parse_filled_iff (list : String) :
    (RemoveKeys.parse list).any String.isEmpty = false ↔
      ∀ piece ∈ Text.splitAt ',' list.toList, ∃ char ∈ piece, Text.isBlank char = false := by
  simp only [RemoveKeys.parse, List.any_map, List.any_eq_false, Function.comp_apply,
    Bool.not_eq_true, isEmpty_trim_iff]

theorem fieldMap_eq_ok_iff (config : Config) (fields : FieldMap) :
    config.fieldMap = .ok fields ↔
      ∃ named, List.Forall₂ Declares (config.fields ++ config.block) named ∧
        FieldMap.ofPairs named = fields := by
  simp only [← pairs_eq_ok_iff, fieldMap]
  cases pairs (config.fields ++ config.block) <;> simp [Except.map]

/-- A configuration is valid exactly if it is acceptable. -/
theorem exists_validate_eq_ok_iff (config : Config) :
    (∃ fields, config.validate = .ok fields) ↔ config.Acceptable := by
  have removal : (config.parsedRemoveKeys.getD []).any String.isEmpty = false ↔
      ∀ list, config.removeKeys = some list →
        ∀ piece ∈ Text.splitAt ',' list.toList, ∃ char ∈ piece, Text.isBlank char = false := by
    rw [parsedRemoveKeys]
    cases config.removeKeys with
    | none => simp
    | some list => simpa using parse_filled_iff list
  have tag := isAllBlank_eq_false_iff config.outputTag.toList
  constructor
  · rintro ⟨fields, valid⟩
    unfold validate at valid
    split at valid
    next => cases valid
    next noBlank =>
    split at valid
    next => cases valid
    next noEmpty =>
      obtain ⟨named, declared, _⟩ := (fieldMap_eq_ok_iff config fields).mp valid
      exact ⟨tag.mp (Bool.eq_false_iff.mpr noBlank), removal.mp (Bool.eq_false_iff.mpr noEmpty),
        exists_declares_of_mem declared⟩
  · rintro ⟨outputTag, removeKeys, entries⟩
    obtain ⟨named, declared⟩ := exists_forall₂_declares entries
    refine ⟨FieldMap.ofPairs named, ?_⟩
    rw [validate, tag.mpr outputTag, removal.mpr removeKeys]
    exact (fieldMap_eq_ok_iff config _).mpr ⟨named, declared, rfl⟩

/-- Settings as a text decodes to them. -/
def decoded? (source : String) : Option Config :=
  (Yaml.documents? source.toList).bind ofDocuments?

theorem read_eq_ok_iff (source : String) (config : Config) :
    read source = .ok config ↔ decoded? source = some config ∧ config.Acceptable := by
  rw [read, ← decoded?, ← exists_validate_eq_ok_iff]
  cases decoded? source with
  | none => simp
  | some found =>
    cases valid : found.validate with
    | error problem =>
      simp only [valid, Option.some.injEq, reduceCtorEq, false_iff, not_and]
      rintro rfl
      simp [valid]
    | ok fields =>
      simp only [valid, Except.ok.injEq, Option.some.injEq]
      constructor
      · rintro rfl
        exact ⟨rfl, fields, valid⟩
      · exact And.left

/-- An acceptable configuration makes an engine of its flat entries and its block. -/
theorem engine_of_declares {config : Config} {flat block : List (String × String)}
    (flatDeclared : List.Forall₂ Declares config.fields flat)
    (blockDeclared : List.Forall₂ Declares config.block block) (fallback : String) :
    ∃ engine, config.engine fallback = .ok engine ∧
      engine.fields = FieldMap.ofPairs (flat ++ block) ∧
      engine.removeKeys = config.parsedRemoveKeys ∧
      engine.settings.hostname = config.hostname.getD fallback := by
  have whole : config.fieldMap = .ok (FieldMap.ofPairs (flat ++ block)) :=
    (fieldMap_eq_ok_iff config _).mpr ⟨_, List.rel_append flatDeclared blockDeclared, rfl⟩
  rw [engine, whole]
  exact ⟨_, rfl, rfl, rfl, rfl⟩

/-- Decoded settings are accepted exactly if they are acceptable. They then make an engine under
every hostname: its fields are the flat entries, none of which is a setting, followed by those of
the block that are new, and an entry of the block decides over a flat one. Its keys to remove are
the trimmed pieces of their list, and its hostname is the configured one, if there is one. -/
theorem read_accepts_exactly {source : String} {config : Config}
    (decoded : decoded? source = some config) (fallback : String) :
    (read source = .ok config ↔ config.Acceptable) ∧
    (config.Acceptable → ∃ engine flat block, config.engine fallback = .ok engine ∧
      List.Forall₂ Declares config.fields flat ∧ List.Forall₂ Declares config.block block ∧
      (∀ name ∈ flat.map Prod.fst, name ∉ settingNames) ∧
      Assoc.keys engine.fields = flat.map Prod.fst ++
        ((block.map Prod.fst).removeAll (flat.map Prod.fst)).eraseDups ∧
      (∀ key, engine.fields.get? key = (Assoc.last? block key).or (Assoc.get? flat key)) ∧
      (engine.removeKeys = config.removeKeys.map fun list =>
        (Text.splitAt ',' list.toList).map fun piece => String.ofList (Text.trim piece)) ∧
      (∀ keys, engine.removeKeys = some keys → "" ∉ keys) ∧
      engine.settings.hostname = config.hostname.getD fallback) := by
  refine ⟨by rw [read_eq_ok_iff, decoded, and_iff_right rfl], fun acceptable => ?_⟩
  obtain ⟨flatEntries, blockEntries⟩ := List.forall_mem_append.mp acceptable.entries
  obtain ⟨flat, flatDeclared⟩ := exists_forall₂_declares flatEntries
  obtain ⟨block, blockDeclared⟩ := exists_forall₂_declares blockEntries
  obtain ⟨engine, made, fields, removal, hostname⟩ :=
    engine_of_declares flatDeclared blockDeclared fallback
  have distinct : (flat.map Prod.fst).Nodup ∧ ∀ name ∈ flat.map Prod.fst, name ∉ settingNames := by
    rw [decoded?, Option.bind_eq_some_iff] at decoded
    obtain ⟨documents, _, isConfig⟩ := decoded
    obtain ⟨names, same, distinct, noSettings⟩ := exists_names_of_decoded isConfig
    rw [map_fst_of_declares flatDeclared same]
    exact ⟨distinct, noSettings⟩
  have sources := FieldMap.sources_ofPairs (flat ++ block)
  refine ⟨engine, flat, block, made, flatDeclared, blockDeclared, distinct.2, ?_, fun key => ?_,
    removal, ?_, hostname⟩
  · rw [fields, ← Assoc.keys_mapValues Template.source, ← FieldMap.sources, sources,
      Assoc.keys_ofPairs, Assoc.keys, List.map_append, List.eraseDups_append,
      Assoc.eraseDups_of_nodup distinct.1]
  · rw [FieldMap.get?_eq_sources, fields, sources, Assoc.get?_ofPairs, Assoc.last?_append,
      Assoc.last?_of_nodup distinct.1]
  · intro keys present empty
    rw [removal, parsedRemoveKeys, Option.map_eq_some_iff] at present
    obtain ⟨list, given, rfl⟩ := present
    have filled := (parse_filled_iff list).mpr (acceptable.removeKeys list given)
    rw [List.any_eq_false] at filled
    exact filled "" empty rfl

/-- A flat entry and the block declare one key, and another key of the block has a tag. -/
theorem read_accepts_exactly_tagged :
    let source := "output_tag: out\nremove_keys: ' p, q'\nb: 1\nc: x\nrecord:\n  c: y\n  !t d: z\n"
    ∃ config engine, decoded? source = some config ∧ read source = .ok config ∧
      config.engine "h" = .ok engine ∧ Assoc.keys engine.fields = ["b", "c", "d"] ∧
      engine.fields.get? "c" = some "y" ∧ engine.fields.get? "d" = some "z" ∧
      engine.removeKeys = some ["p", "q"] := by
  intro source
  have loads : ((decoded? source).map fun config =>
      (config.engine "h").toOption.map fun engine => (engine.fields.sources, engine.removeKeys)) =
        some (some ([("b", "1"), ("c", "y"), ("d", "z")], some ["p", "q"])) := by
    decide +kernel
  have accepted : (read source).isOk = true := by decide +kernel
  obtain ⟨config, decoded, made⟩ := Option.map_eq_some_iff.mp loads
  have acceptable : config.Acceptable := by
    cases loaded : read source with
    | error problem =>
      rw [loaded] at accepted
      cases accepted
    | ok found =>
      obtain ⟨same, acceptable⟩ := (read_eq_ok_iff source found).mp loaded
      rw [decoded, Option.some.injEq] at same
      exact same ▸ acceptable
  obtain ⟨exact, makes⟩ := read_accepts_exactly decoded "h"
  obtain ⟨engine, _, _, built, _⟩ := makes acceptable
  rw [built, Except.toOption, Option.map_some, Option.some_inj, Prod.mk.injEq] at made
  obtain ⟨sources, removal⟩ := made
  refine ⟨config, engine, decoded, exact.mpr acceptable, built, ?_, ?_, ?_, removal⟩
  · rw [← Assoc.keys_mapValues Template.source, ← FieldMap.sources, sources]
    rfl
  · rw [FieldMap.get?_eq_sources, sources]
    rfl
  · rw [FieldMap.get?_eq_sources, sources]
    rfl

end Config

end Recast
