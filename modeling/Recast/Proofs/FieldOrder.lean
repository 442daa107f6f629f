import Mathlib
import Recast.Engine
import Recast.Proofs.WrittenValues

set_option autoImplicit false

/-!
# The order of fields

Entries that are inserted one after another keep the order of their first insertions and the values
of their last ones. A field map is such a list of entries, whichever calls have made it.
-/

namespace Recast

namespace Assoc

variable {α β : Type}

theorem eraseDups_of_nodup {names : List String} (distinct : names.Nodup) :
    names.eraseDups = names := by
  induction names with
  | nil => rfl
  | cons name rest ih =>
    obtain ⟨fresh, others⟩ := List.nodup_cons.mp distinct
    have kept : rest.filter (fun other => !other == name) = rest :=
      List.filter_eq_self.mpr fun other member => by
        have different : other ≠ name := fun same => fresh (same ▸ member)
        simp [different]
    rw [List.eraseDups_cons, kept, ih others]

theorem ofPairs_concat (pairs : List (String × α)) (key : String) (value : α) :
    ofPairs (pairs ++ [(key, value)]) = insert (ofPairs pairs) key value := by
  simp [ofPairs, insertAll]

/-- Inserted keys stand where each was inserted first. -/
theorem keys_ofPairs (pairs : List (String × α)) :
    keys (ofPairs pairs) = (keys pairs).eraseDups := by
  induction pairs using List.reverseRecOn with
  | nil => rfl
  | append_singleton pairs pair ih =>
    obtain ⟨key, value⟩ := pair
    have moved : keys (pairs ++ [(key, value)]) = keys pairs ++ [key] := by simp [keys]
    rw [ofPairs_concat, keys_insert, ih, moved, List.eraseDups_append]
    by_cases known : key ∈ keys pairs <;> simp [known, List.removeAll, List.eraseDups_cons]

theorem get?_eq_find? (entries : Assoc α) (key : String) :
    get? entries key = (entries.find? fun entry => entry.1 = key).map Prod.snd := by
  induction entries with
  | nil => rfl
  | cons entry rest ih =>
    obtain ⟨name, value⟩ := entry
    by_cases same : name = key <;> simp [get?, same, ih]

/-- The value of the last of pairs with a key. -/
def last? (pairs : List (String × α)) (key : String) : Option α :=
  (pairs.filter fun pair => pair.1 = key).getLast?.map Prod.snd

theorem last?_append (pairs others : List (String × α)) (key : String) :
    last? (pairs ++ others) key = (last? others key).or (last? pairs key) := by
  rw [last?, List.filter_append, List.getLast?_append, Option.map_or]
  rfl

/-- A key has the value that was inserted for it last. -/
theorem get?_ofPairs (pairs : List (String × α)) (key : String) :
    get? (ofPairs pairs) key = last? pairs key := by
  rw [ofPairs, get?_insertAll, get?_nil, Option.or_none, get?_eq_find?, ← List.head?_filter,
    List.filter_reverse, List.head?_reverse, last?]

theorem last?_of_nodup {pairs : List (String × α)} (distinct : (keys pairs).Nodup) (key : String) :
    last? pairs key = get? pairs key := by
  rw [← get?_ofPairs, ofPairs_eq_self distinct]

theorem insert_mapValues (f : α → β) (entries : Assoc α) (key : String) (value : α) :
    insert (mapValues f entries) key (f value) = mapValues f (insert entries key value) := by
  induction entries with
  | nil => rfl
  | cons entry rest ih =>
    obtain ⟨name, old⟩ := entry
    simp only [mapValues] at ih
    by_cases same : name = key <;> simp [mapValues, insert, same, ih]

end Assoc

namespace FieldMap

theorem ofPairs_concat (pairs : List (String × String)) (key source : String) :
    ofPairs (pairs ++ [(key, source)]) = (ofPairs pairs).insert key source := by
  simp [ofPairs]

/-- Fields that are made of pairs have the pairs' sources. -/
theorem sources_ofPairs (pairs : List (String × String)) :
    (ofPairs pairs).sources = Assoc.ofPairs pairs := by
  induction pairs using List.reverseRecOn with
  | nil => rfl
  | append_singleton pairs pair ih =>
    rw [ofPairs_concat, Assoc.ofPairs_concat, ← ih, sources, sources, insert,
      ← Assoc.insert_mapValues]
    rfl

theorem get?_eq_sources (fields : FieldMap) (key : String) :
    fields.get? key = Assoc.get? fields.sources key :=
  (Assoc.get?_mapValues Template.source fields key).symm

/-! ## Calls -/

/-- A call that makes or changes a field map: one more key, a new map of pairs, or one more key for
the fields of a builder. -/
inductive Call where
  | insert (key source : String)
  | collect (pairs : List (String × String))
  | field (spec : EngineSpec) (key source : String)

/-- The fields after a call. -/
def Call.run (fields : FieldMap) : Call → FieldMap
  | .insert key source => fields.insert key source
  | .collect pairs => .ofPairs pairs
  | .field spec key source => ((spec.withFields fields).withField key source).fields

/-- The insertions into the fields after a call, of those before it. -/
def Call.inserted (pairs : List (String × String)) : Call → List (String × String)
  | .insert key source => pairs ++ [(key, source)]
  | .collect pairs => pairs
  | .field _ key source => pairs ++ [(key, source)]

theorem Call.run_ofPairs (call : Call) (pairs : List (String × String)) :
    call.run (ofPairs pairs) = ofPairs (call.inserted pairs) := by
  cases call with
  | insert key source => exact (ofPairs_concat pairs key source).symm
  | collect others => rfl
  | field spec key source => exact (ofPairs_concat pairs key source).symm

theorem foldl_run (calls : List Call) (pairs : List (String × String)) :
    calls.foldl Call.run (ofPairs pairs) = ofPairs (calls.foldl Call.inserted pairs) := by
  induction calls generalizing pairs with
  | nil => rfl
  | cons call rest ih => rw [List.foldl_cons, List.foldl_cons, Call.run_ofPairs, ih]

/-! ## Text -/

theorem entriesExact_sources (fields : FieldMap) :
    Json.EntriesExact (Assoc.mapValues (fun template => .text template.source) fields) ∧
      Json.entriesNesting (Assoc.mapValues (fun template => .text template.source) fields) = 0 := by
  induction fields with
  | nil => exact ⟨trivial, rfl⟩
  | cons field rest ih =>
    obtain ⟨exact, shallow⟩ := ih
    refine ⟨⟨trivial, exact⟩, ?_⟩
    show max 0 (Json.entriesNesting _) = 0
    rw [Nat.zero_max]
    exact shallow

/-- The text of fields is read as an object of their keys and sources in order. -/
theorem readObject_toJson {fields : FieldMap} (distinct : (Assoc.keys fields).Nodup) :
    Json.readObject fields.toJson.write =
      .ok (fields.map fun field => (field.1, .text field.2.source)) := by
  obtain ⟨exact, shallow⟩ := entriesExact_sources fields
  have back : Json.read fields.toJson.write = .ok fields.toJson := by
    refine Json.read_write ⟨?_, exact⟩ ?_
    · rw [Assoc.keys_mapValues]
      exact distinct
    · show Json.entriesNesting _ + 1 ≤ Json.maxDepth
      rw [shallow]
      decide
  simp only [Json.readObject, back]
  rfl

/-! ## Any calls -/

/-- Whatever calls have made a field map, its keys are distinct and stand in the order of their
first insertions, each has the template that was inserted for it last, and its text is read as an
object of just these. -/
theorem calls_keep_order (calls : List Call) :
    let fields := calls.foldl Call.run []
    let pairs := calls.foldl Call.inserted []
    (Assoc.keys fields).Nodup ∧
      Assoc.keys fields = (pairs.map Prod.fst).eraseDups ∧
      (∀ key, fields.get? key = Assoc.last? pairs key) ∧
      fields.length = (pairs.map Prod.fst).toFinset.card ∧
      ∃ entries, Json.readObject fields.toJson.write = .ok entries ∧
        Assoc.keys entries = Assoc.keys fields ∧
        ∀ key, Assoc.get? entries key = (fields.get? key).map .text := by
  intro fields pairs
  have made : fields = ofPairs pairs := foldl_run calls []
  have distinct : (Assoc.keys fields).Nodup := made ▸ nodup_keys_ofPairs pairs
  have sources : fields.sources = Assoc.ofPairs pairs := made ▸ sources_ofPairs pairs
  have order : Assoc.keys fields = (pairs.map Prod.fst).eraseDups := by
    rw [← Assoc.keys_mapValues Template.source]
    exact (congrArg Assoc.keys sources).trans (Assoc.keys_ofPairs pairs)
  refine ⟨distinct, order, fun key => ?_, ?_, _, readObject_toJson distinct, ?_, fun key => ?_⟩
  · rw [← Assoc.get?_ofPairs, ← sources, get?_eq_sources]
  · have same : (Assoc.keys fields).toFinset = (pairs.map Prod.fst).toFinset := by
      ext key
      rw [List.mem_toFinset, List.mem_toFinset, order, List.mem_eraseDups]
    rw [← same, List.toFinset_card_of_nodup distinct, Assoc.keys, List.length_map]
  · exact Assoc.keys_mapValues (fun template => Json.Value.text template.source) fields
  · rw [FieldMap.get?, Option.map_map]
    exact Assoc.get?_mapValues (fun template => Json.Value.text template.source) fields key

end FieldMap

end Recast
