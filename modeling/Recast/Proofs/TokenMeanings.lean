import Mathlib.Data.List.Nodup
import Recast.Proofs.TokenTable

set_option autoImplicit false

/-!
# What each token stands for

The tokens of an event are those of its fields, of the time, the tag and the host name, of the
segments of the tag under two names and two indices each, and three legacy tokens. A field is put
before all others of its name. No other text is a token.
-/

namespace Recast

theorem Assoc.nodup_keys_insertAll {α : Type} {entries : Assoc α} (distinct : (keys entries).Nodup)
    (pairs : List (String × α)) : (keys (insertAll entries pairs)).Nodup := by
  induction pairs generalizing entries with
  | nil => exact distinct
  | cons pair rest ih => exact ih (nodup_keys_insert distinct pair.1 pair.2)

namespace Placeholder

/-- What a token stands for among the values of an event. -/
inductive StandsFor (event : Event) (hostname : String) : String → Json.Value → Prop where
  | field {name : String} {value : Json.Value} : Assoc.get? event.record name = some value →
      StandsFor event hostname (token name) value
  | time : "time" ∉ Assoc.keys event.record →
      StandsFor event hostname (token "time") (.int event.time)
  | tag : "tag" ∉ Assoc.keys event.record →
      StandsFor event hostname (token "tag") (.text event.tag)
  | hostname : "hostname" ∉ Assoc.keys event.record →
      StandsFor event hostname (token "hostname") (.text hostname)
  | segment {family part : String} {position : Nat} {index : Int} :
      family = "tag_parts" ∨ family = "tags" → (Tag.parts event.tag)[position]? = some part →
      index = position ∨ index = position - (Tag.parts event.tag).length →
      segmentName family index ∉ Assoc.keys event.record →
      StandsFor event hostname (token (segmentName family index)) (.text part)
  | legacyTag {value : Json.Value} : StandsFor event hostname (token "tag") value →
      StandsFor event hostname "__TAG__" value
  | legacyHostname {value : Json.Value} : StandsFor event hostname (token "hostname") value →
      StandsFor event hostname "__HOSTNAME__" value
  | legacyTime {value : Json.Value} : StandsFor event hostname (token "time") value →
      StandsFor event hostname "__TIME__" value

/-- The indices of some segments, each counted from the right and from the left. -/
def segmentIndices (count : Nat) : List Int :=
  (List.range count).flatMap fun position : Nat => [(position : Int) - count, (position : Int)]

def segmentNames (count : Nat) : List String :=
  ["tag_parts", "tags"].flatMap fun family => (segmentIndices count).map (segmentName family)

def reservedNames (count : Nat) : List String :=
  ["time", "tag", "hostname"] ++ segmentNames count

/-- The tokens of a tag with that many segments, whatever the fields are. -/
def builtInTokens (count : Nat) : List String :=
  (reservedNames count).map token ++ ["__TAG__", "__HOSTNAME__", "__TIME__"]

/-! ## The names of segments -/

theorem exists_position_of_part? {parts : List String} {index : Int} {part : String}
    (found : Tag.part? parts index = some part) :
    ∃ position : Nat, parts[position]? = some part ∧
      (index = position ∨ index = position - parts.length) := by
  obtain ⟨segment, member, rfl, either⟩ := Tag.exists_indexed_of_part? found
  obtain ⟨position, located⟩ := List.mem_iff_getElem?.mp member
  rw [Tag.indexed, Tag.getElem?_indexedFrom, Nat.zero_add, Option.map_eq_some_iff] at located
  obtain ⟨part, located, rfl⟩ := located
  exact ⟨position, located, either.imp Eq.symm Eq.symm⟩

theorem part?_of_position {parts : List String} {position : Nat} {part : String} {index : Int}
    (located : parts[position]? = some part)
    (counted : index = position ∨ index = position - parts.length) :
    Tag.part? parts index = some part := by
  obtain ⟨inside, _⟩ := List.getElem?_eq_some_iff.mp located
  obtain rfl | rfl := counted
  · exact (Tag.part?_forward parts position).trans located
  · exact (Tag.part?_backward parts inside).trans located

theorem nodup_segmentIndices (count : Nat) : (segmentIndices count).Nodup := by
  refine List.nodup_flatMap.mpr ⟨?_, ?_⟩
  · intro position member
    have inside := List.mem_range.mp member
    simp
    omega
  · refine (List.nodup_range (n := count)).imp_of_mem ?_
    intro position other member otherMember different
    have inside := List.mem_range.mp member
    have otherInside := List.mem_range.mp otherMember
    simp [List.Disjoint]
    omega

theorem nodup_segmentNames (count : Nat) : (segmentNames count).Nodup := by
  refine List.nodup_flatMap.mpr ⟨?_, ?_⟩
  · intro family known
    refine (nodup_segmentIndices count).map_on ?_
    intro index _ other _ same
    have unindexed := unindexed_of_mem_families known
    exact (segmentName_injective unindexed unindexed same).2
  · have different : ["tag_parts", "tags"].Nodup := by decide
    refine different.imp_of_mem ?_
    intro family other known otherKnown apart name member otherMember
    obtain ⟨index, _, rfl⟩ := List.mem_map.mp member
    obtain ⟨place, _, same⟩ := List.mem_map.mp otherMember
    have equal := segmentName_injective (unindexed_of_mem_families otherKnown)
      (unindexed_of_mem_families known) same
    exact apart equal.1.symm

theorem bracket_mem_of_mem_segmentNames {count : Nat} {name : String}
    (member : name ∈ segmentNames count) : '[' ∈ name.toList := by
  obtain ⟨family, _, member⟩ := List.mem_flatMap.mp member
  obtain ⟨index, _, rfl⟩ := List.mem_map.mp member
  simp [segmentName, String.toList_append]

theorem length_segmentNames (count : Nat) : (segmentNames count).length = 4 * count := by
  simp [segmentNames, segmentIndices]
  omega

theorem flatMap_indexedFrom (size start : Nat) (parts : List String) :
    (Tag.indexedFrom size start parts).flatMap
        (fun segment => [segment.backward, segment.forward]) =
      (List.range' start parts.length).flatMap fun position : Nat =>
        [(position : Int) - size, (position : Int)] := by
  induction parts generalizing start with
  | nil => rfl
  | cons part rest ih =>
    rw [Tag.indexedFrom, List.flatMap_cons, ih, List.length_cons, List.range'_succ,
      List.flatMap_cons]
    rfl

theorem keys_allSegmentEntries (parts : List String) :
    Assoc.keys (allSegmentEntries (Tag.indexed parts)) = (segmentNames parts.length).map token := by
  have indices : segmentIndices parts.length =
      (Tag.indexed parts).flatMap fun segment => [segment.backward, segment.forward] := by
    rw [Tag.indexed, flatMap_indexedFrom, segmentIndices, List.range_eq_range']
  simp only [Assoc.keys, allSegmentEntries, segmentNames, indices, List.map_flatMap, List.map_map]
  simp [segmentEntries, families]

/-! ## Tokens of names -/

theorem nodup_map_token {names : List String} (distinct : names.Nodup) :
    (names.map token).Nodup :=
  distinct.map fun left right => token_injective left right

theorem mem_map_token {names : List String} {name : String} :
    token name ∈ names.map token ↔ name ∈ names := by
  constructor
  · intro member
    obtain ⟨other, listed, same⟩ := List.mem_map.mp member
    exact token_injective other name same ▸ listed
  · exact List.mem_map_of_mem

theorem unindexed_of_mem_plain {name : String} (known : name ∈ ["time", "tag", "hostname"]) :
    '[' ∉ name.toList := by
  revert name
  decide

theorem length_reservedNames (count : Nat) : (reservedNames count).length = 3 + 4 * count := by
  rw [reservedNames, List.length_append, length_segmentNames]
  rfl

theorem token_mem_builtInTokens {count : Nat} {name : String} :
    token name ∈ builtInTokens count ↔ name ∈ reservedNames count := by
  have legacy : token name ∉ ["__TAG__", "__HOSTNAME__", "__TIME__"] := by
    intro member
    obtain ⟨legacy, known, same⟩ : ∃ legacy ∈ legacyTokens, legacy.1 = token name :=
      List.mem_map.mp member
    exact legacy_ne_token known name same
  rw [builtInTokens, List.mem_append, mem_map_token, or_iff_left legacy]

/-! ## The keys of the table -/

theorem keys_foldl_addLegacy {listed : List (String × String)} (table : Table)
    (distinct : (listed.map Prod.fst).Nodup)
    (known : ∀ legacy ∈ listed, legacy.2 ∈ Assoc.keys table)
    (fresh : ∀ legacy ∈ listed, legacy.1 ∉ Assoc.keys table) :
    Assoc.keys (listed.foldl addLegacy table) = Assoc.keys table ++ listed.map Prod.fst := by
  induction listed generalizing table with
  | nil => simp
  | cons first rest ih =>
    obtain ⟨knownFirst, knownRest⟩ := List.forall_mem_cons.mp known
    obtain ⟨freshFirst, freshRest⟩ := List.forall_mem_cons.mp fresh
    obtain ⟨apart, distinct⟩ := List.nodup_cons.mp distinct
    obtain ⟨value, found⟩ :=
      Option.isSome_iff_exists.mp ((Assoc.isSome_get?_iff table first.2).mpr knownFirst)
    have added : Assoc.keys (addLegacy table first) = Assoc.keys table ++ [first.1] := by
      rw [addLegacy, found]
      dsimp only
      rw [Assoc.keys_insert, if_neg freshFirst]
    rw [List.foldl_cons, ih (addLegacy table first) distinct ?_ ?_, added, List.append_assoc]
    · rfl
    · intro legacy member
      rw [added]
      exact List.mem_append_left _ (knownRest legacy member)
    · intro legacy member
      rw [added, List.mem_append, List.mem_singleton, not_or]
      refine ⟨freshRest legacy member, ?_⟩
      rintro same
      exact apart (same ▸ List.mem_map_of_mem member)

theorem nodup_keys_foldl_addLegacy {table : Table} (distinct : (Assoc.keys table).Nodup)
    (listed : List (String × String)) : (Assoc.keys (listed.foldl addLegacy table)).Nodup := by
  induction listed generalizing table with
  | nil => exact distinct
  | cons first rest ih =>
    apply ih
    unfold addLegacy
    split
    · exact Assoc.nodup_keys_insert distinct _ _
    · exact distinct

theorem exists_name_of_legacy {legacy : String × String} (known : legacy ∈ legacyTokens) :
    ∃ name, legacy.2 = token name := by
  revert known
  simp only [legacyTokens, List.mem_cons, List.not_mem_nil, or_false]
  rintro (rfl | rfl | rfl)
  · exact ⟨"tag", rfl⟩
  · exact ⟨"hostname", rfl⟩
  · exact ⟨"time", rfl⟩

theorem get?_foldl_addLegacy_of_mem {listed : List (String × String)} (table : Table)
    (distinct : (listed.map Prod.fst).Nodup) (current : listed ⊆ legacyTokens)
    {legacy : String × String} (member : legacy ∈ listed) :
    Assoc.get? (listed.foldl addLegacy table) legacy.1 =
      (Assoc.get? table legacy.2).or (Assoc.get? table legacy.1) := by
  induction listed generalizing table with
  | nil => cases member
  | cons first rest ih =>
    obtain ⟨apart, distinct⟩ := List.nodup_cons.mp distinct
    rw [List.foldl_cons]
    obtain rfl | member := List.mem_cons.mp member
    · have others : ∀ later ∈ rest, later.1 ≠ legacy.1 := by
        intro later listed same
        exact apart (same ▸ List.mem_map_of_mem listed)
      rw [get?_foldl_addLegacy_of_ne _ others, get?_addLegacy_any, if_pos rfl]
    · have other : first.1 ≠ legacy.1 := by
        intro same
        exact apart (same ▸ List.mem_map_of_mem member)
      obtain ⟨name, named⟩ := exists_name_of_legacy (current (List.mem_cons_of_mem first member))
      rw [ih _ distinct (fun _ later => current (List.mem_cons_of_mem _ later)) member,
        get?_addLegacy_any _ _ legacy.1, if_neg other, named,
        get?_addLegacy table (current List.mem_cons_self)]

/-- The table before the legacy tokens are added. -/
def Table.current (event : Event) (hostname : String) : Table :=
  Assoc.insertAll
    (Assoc.insertAll ((reserved event hostname).map fun entry => (token entry.1, entry.2))
      (allSegmentEntries (Tag.indexed (Tag.parts event.tag))))
    (event.record.map fun field => (token field.1, field.2))

theorem Table.build_eq (event : Event) (hostname : String) :
    build event hostname = legacyTokens.foldl addLegacy (current event hostname) := rfl

section Table

variable (event : Event) (hostname : String)

/-- The names before the fields are added. -/
private theorem keys_reserved :
    Assoc.keys (Assoc.insertAll
        ((reserved event hostname).map fun entry => (token entry.1, entry.2))
        (allSegmentEntries (Tag.indexed (Tag.parts event.tag)))) =
      (reservedNames (Tag.parts event.tag).length).map token := by
  have names : Assoc.keys ((reserved event hostname).map fun entry => (token entry.1, entry.2)) =
      ["time", "tag", "hostname"].map token := rfl
  have apart : (Assoc.keys (allSegmentEntries (Tag.indexed (Tag.parts event.tag)))).Nodup := by
    rw [keys_allSegmentEntries]
    exact nodup_map_token (nodup_segmentNames _)
  rw [Assoc.keys_insertAll _ apart, keys_allSegmentEntries, names, reservedNames, List.map_append,
    List.filter_eq_self.mpr]
  intro key member
  obtain ⟨name, listed, rfl⟩ := List.mem_map.mp member
  rw [decide_eq_true_eq, mem_map_token]
  intro known
  exact unindexed_of_mem_plain known (bracket_mem_of_mem_segmentNames listed)

/-- Fields are added behind the reserved names, unless they have one of these. -/
theorem Table.keys_current (distinct : (Assoc.keys event.record).Nodup) :
    Assoc.keys (current event hostname) =
      (reservedNames (Tag.parts event.tag).length ++ (Assoc.keys event.record).filter
        fun name => decide (name ∉ reservedNames (Tag.parts event.tag).length)).map token := by
  have fields : Assoc.keys (event.record.map fun field => (token field.1, field.2)) =
      (Assoc.keys event.record).map token := by
    simp [Assoc.keys]
  have apart : (Assoc.keys (event.record.map fun field => (token field.1, field.2))).Nodup := by
    rw [fields]
    exact nodup_map_token distinct
  rw [current, Assoc.keys_insertAll _ apart, fields, keys_reserved, List.filter_map,
    List.map_append]
  simp only [Function.comp_def, mem_map_token]

theorem Table.keys_build (distinct : (Assoc.keys event.record).Nodup) :
    Assoc.keys (build event hostname) =
      Assoc.keys (current event hostname) ++ ["__TAG__", "__HOSTNAME__", "__TIME__"] := by
  have current := keys_current event hostname distinct
  rw [build_eq, keys_foldl_addLegacy]
  · rfl
  · decide
  · intro legacy known
    have reserved : ∀ legacy ∈ legacyTokens, legacy.2 ∈ ["time", "tag", "hostname"].map token := by
      decide
    rw [current, reservedNames, List.append_assoc, List.map_append]
    exact List.mem_append_left _ (reserved legacy known)
  · intro legacy known member
    rw [current] at member
    obtain ⟨name, _, same⟩ := List.mem_map.mp member
    exact legacy_ne_token known name same.symm

theorem Table.nodup_keys_build : (Assoc.keys (build event hostname)).Nodup := by
  have reserved : (Assoc.keys ((reserved event hostname).map fun entry =>
      (token entry.1, entry.2))).Nodup := by
    have names : (["time", "tag", "hostname"].map token).Nodup := by decide
    exact names
  have current : (Assoc.keys (current event hostname)).Nodup :=
    Assoc.nodup_keys_insertAll (Assoc.nodup_keys_insertAll reserved _) _
  rw [build_eq]
  exact nodup_keys_foldl_addLegacy current legacyTokens

/-- Beside the tokens that every event with as many segments has, there is one for each field whose
token is not one of them. -/
theorem Table.length_build (distinct : (Assoc.keys event.record).Nodup) :
    (build event hostname).length = 6 + 4 * (Tag.parts event.tag).length +
      (Assoc.keys event.record).countP fun name =>
        decide (token name ∉ builtInTokens (Tag.parts event.tag).length) := by
  have size : (build event hostname).length = (Assoc.keys (build event hostname)).length := by
    rw [Assoc.keys, List.length_map]
  have others : ∀ name, decide (token name ∉ builtInTokens (Tag.parts event.tag).length) =
      decide (name ∉ reservedNames (Tag.parts event.tag).length) := by
    intro name
    simp only [token_mem_builtInTokens]
  rw [size, keys_build event hostname distinct, keys_current event hostname distinct]
  simp only [others, List.length_append, List.length_map, length_reservedNames,
    List.countP_eq_length_filter, List.length_cons, List.length_nil]
  omega

/-- A legacy token stands for what its current token stands for. -/
theorem Table.get?_build_legacy (distinct : (Assoc.keys event.record).Nodup)
    {legacy : String × String} (known : legacy ∈ legacyTokens) :
    Assoc.get? (build event hostname) legacy.1 = Assoc.get? (build event hostname) legacy.2 := by
  have absent : Assoc.get? (current event hostname) legacy.1 = none := by
    rw [Assoc.get?_eq_none_iff, keys_current event hostname distinct]
    intro member
    obtain ⟨name, _, same⟩ := List.mem_map.mp member
    exact legacy_ne_token known name same.symm
  obtain ⟨name, named⟩ := exists_name_of_legacy known
  have others : ∀ other ∈ legacyTokens, other.1 ≠ legacy.2 := by
    intro other otherKnown
    rw [named]
    exact legacy_ne_token otherKnown name
  rw [build_eq, get?_foldl_addLegacy_of_mem _ (by decide) (List.Subset.refl _) known, absent,
    Option.or_none, get?_foldl_addLegacy_of_ne _ others]

/-- What is found for the token of a name. -/
theorem Table.standsFor_of_get? (distinct : (Assoc.keys event.record).Nodup) {name : String}
    {value : Json.Value} (found : Assoc.get? (build event hostname) (token name) = some value) :
    StandsFor event hostname (token name) value := by
  rw [get?_build, Assoc.get?_reverse distinct, Option.or_eq_some_iff] at found
  obtain field | ⟨unfielded, found⟩ := found
  · exact .field field
  rw [Assoc.get?_eq_none_iff] at unfielded
  rw [Option.or_eq_some_iff] at found
  obtain segment | ⟨_, reserved⟩ := found
  · have member := List.mem_reverse.mp (Assoc.mem_of_get?_eq_some segment)
    obtain ⟨family, known, index, part, same, rfl, located⟩ := mem_allSegmentEntries member
    obtain rfl := token_injective _ _ same
    obtain ⟨position, place, counted⟩ := exists_position_of_part? located
    exact .segment (by simpa [families] using known) place counted unfielded
  · have member := Assoc.mem_of_get?_eq_some reserved
    simp only [Placeholder.reserved, List.mem_cons, Prod.mk.injEq, List.not_mem_nil,
      or_false] at member
    obtain ⟨rfl, rfl⟩ | ⟨rfl, rfl⟩ | ⟨rfl, rfl⟩ := member
    · exact .time unfielded
    · exact .tag unfielded
    · exact .hostname unfielded

/-- The table gives for a token what it stands for, and nothing for any other text. -/
theorem Table.get?_build_eq_some_iff (distinct : (Assoc.keys event.record).Nodup) (key : String)
    (value : Json.Value) :
    Assoc.get? (build event hostname) key = some value ↔ StandsFor event hostname key value := by
  constructor
  · intro found
    have member : key ∈ Assoc.keys (build event hostname) := by
      rw [← Assoc.isSome_get?_iff, found]
      rfl
    rw [keys_build event hostname distinct, keys_current event hostname distinct,
      List.mem_append] at member
    obtain named | legacy := member
    · obtain ⟨name, _, rfl⟩ := List.mem_map.mp named
      exact standsFor_of_get? event hostname distinct found
    · obtain ⟨legacy, known, rfl⟩ : ∃ legacy ∈ legacyTokens, legacy.1 = key :=
        List.mem_map.mp legacy
      rw [get?_build_legacy event hostname distinct known] at found
      simp only [legacyTokens, List.mem_cons, List.not_mem_nil, or_false] at known
      obtain rfl | rfl | rfl := known
      · exact .legacyTag (standsFor_of_get? event hostname distinct found)
      · exact .legacyHostname (standsFor_of_get? event hostname distinct found)
      · exact .legacyTime (standsFor_of_get? event hostname distinct found)
  · intro stands
    have look := fun name => get?_build event hostname name
    simp only [Assoc.get?_reverse distinct] at look
    have absent : ∀ {name}, name ∉ Assoc.keys event.record → Assoc.get? event.record name = none :=
      (Assoc.get?_eq_none_iff _ _).mpr
    have plain : ∀ name ∈ ["time", "tag", "hostname"], name ∉ Assoc.keys event.record →
        Assoc.get? (build event hostname) (token name) =
          Assoc.get? (reserved event hostname) name := by
      intro name known unfielded
      rw [look, absent unfielded,
        get?_allSegmentEntries_unindexed _ (unindexed_of_mem_plain known), Option.none_or,
        Option.none_or]
    have legacy : ∀ legacy ∈ legacyTokens, Assoc.get? (build event hostname) legacy.2 = some value →
        Assoc.get? (build event hostname) legacy.1 = some value := by
      intro legacy known found
      rw [get?_build_legacy event hostname distinct known, found]
    induction stands with
    | field found => rw [look, found, Option.some_or]
    | time unfielded => exact plain "time" (by decide) unfielded
    | tag unfielded => exact plain "tag" (by decide) unfielded
    | hostname unfielded => exact plain "hostname" (by decide) unfielded
    | @segment family part position index known located counted unfielded =>
      have listed : family ∈ families := by simpa [families] using known
      rw [look, absent unfielded, get?_allSegmentEntries listed,
        part?_of_position located counted, Option.none_or]
      rfl
    | legacyTag _ ih => exact legacy ("__TAG__", token "tag") (by decide) (ih legacy)
    | legacyHostname _ ih => exact legacy ("__HOSTNAME__", token "hostname") (by decide) (ih legacy)
    | legacyTime _ ih => exact legacy ("__TIME__", token "time") (by decide) (ih legacy)

end Table

/-- The table of an event holds what its tokens stand for and nothing else. The names and indices of
one segment agree wherever no field has taken their place, and the size of the table is that of the
built-in tokens and of the fields with other tokens. -/
theorem Table.build_holds_meanings (event : Event) (hostname : String)
    (distinct : (Assoc.keys event.record).Nodup) :
    let table := build event hostname
    let parts := Tag.parts event.tag
    (∀ key value, Assoc.get? table key = some value ↔ StandsFor event hostname key value) ∧
      (∀ (position : Nat) part, parts[position]? = some part →
        ∀ family ∈ ["tag_parts", "tags"], ∀ index : Int,
          index = position ∨ index = position - parts.length →
          segmentName family index ∉ Assoc.keys event.record →
          Assoc.get? table (token (segmentName family index)) = some (.text part)) ∧
      (Assoc.keys table).Nodup ∧
      table.length = 6 + 4 * parts.length + (Assoc.keys event.record).countP fun name =>
        decide (token name ∉ builtInTokens parts.length) := by
  intro table parts
  have holds := get?_build_eq_some_iff event hostname distinct
  refine ⟨holds, ?_, nodup_keys_build event hostname, length_build event hostname distinct⟩
  intro position part located family known index counted unfielded
  have either : family = "tag_parts" ∨ family = "tags" := by simpa using known
  exact (holds _ _).mpr (.segment either located counted unfielded)

/-- A field that is called like the tag, and one that is called like its first segment. -/
theorem Table.build_holds_meanings_overridden :
    let event : Event := ⟨"a.b", 0, [("tag", .int 1), ("tags[0]", .null), ("user", .text "u")]⟩
    (Assoc.keys event.record).Nodup ∧
      Assoc.get? (build event "h") "__TAG__" = some (.int 1) ∧
      Assoc.get? (build event "h") (token "tags[0]") = some .null ∧
      Assoc.get? (build event "h") (token (segmentName "tags" (-2))) = some (.text "a") ∧
      (build event "h").length = 15 := by
  intro event
  have distinct : (Assoc.keys event.record).Nodup := by decide
  obtain ⟨holds, agree, _, size⟩ := Table.build_holds_meanings event "h" distinct
  have unfielded : segmentName "tags" (-2) ∉ Assoc.keys event.record := by decide +kernel
  refine ⟨distinct, ?_, ?_, ?_, ?_⟩
  · exact (holds _ _).mpr (.legacyTag (.field rfl))
  · exact (holds _ _).mpr (.field rfl)
  · have counted : (-2 : Int) = ((0 : Nat) : Int) - (Tag.parts event.tag).length := by
      decide +kernel
    exact agree 0 "a" (by decide +kernel) "tags" (by decide) (-2) (.inr counted) unfielded
  · rw [size]
    decide +kernel

end Placeholder

end Recast
