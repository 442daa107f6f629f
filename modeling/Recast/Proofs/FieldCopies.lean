import Recast.Proofs.ModeAgreement

set_option autoImplicit false

/-!
# Copies of fields

A template that is the name of a field gives a copy of it: the same value up to the order of keys,
exactly if scripts hold every number in it.
-/

namespace Recast

namespace Json

mutual

/-- The same value up to the order of the entries of objects, at every depth. -/
def Value.Same : Value → Value → Prop
  | .array items, .array others => ItemsSame items others
  | .object entries, .object others =>
    ∃ reordered : List (String × Value), reordered.Perm others ∧ EntriesSame entries reordered
  | .array _, _ => False
  | .object _, _ => False
  | value, other => value = other

def ItemsSame : List Value → List Value → Prop
  | [], [] => True
  | item :: rest, other :: others => item.Same other ∧ ItemsSame rest others
  | _, _ => False

def EntriesSame : List (String × Value) → List (String × Value) → Prop
  | [], [] => True
  | (key, value) :: rest, (name, other) :: others =>
    key = name ∧ value.Same other ∧ EntriesSame rest others
  | _, _ => False

end

mutual

theorem Value.same_sorted : ∀ value : Value, value.Same value.sorted
  | .null => rfl
  | .bool _ => rfl
  | .int _ => rfl
  | .float _ => rfl
  | .text _ => rfl
  | .array items => by
    rw [Value.sorted, Value.Same]
    exact itemsSame_sorted items
  | .object entries => by
    rw [Value.sorted, Value.Same]
    exact ⟨_, (List.mergeSort_perm _ _).symm, entriesSame_sorted entries⟩

theorem itemsSame_sorted : ∀ items : List Value, ItemsSame items (sortedItems items)
  | [] => trivial
  | item :: rest => by
    rw [sortedItems, ItemsSame]
    exact ⟨item.same_sorted, itemsSame_sorted rest⟩

theorem entriesSame_sorted : ∀ entries : List (String × Value),
    EntriesSame entries (sortedEntries entries)
  | [] => trivial
  | (_, value) :: rest => by
    rw [sortedEntries, EntriesSame]
    exact ⟨rfl, value.same_sorted, entriesSame_sorted rest⟩

end

theorem entriesPortable_iff (entries : List (String × Value)) :
    EntriesPortable entries ↔ ∀ entry ∈ entries, entry.2.IsPortable := by
  induction entries with
  | nil => exact iff_of_true trivial (fun _ member => nomatch member)
  | cons entry rest ih =>
    obtain ⟨key, value⟩ := entry
    rw [EntriesPortable, ih, List.forall_mem_cons]

theorem keys_eq_of_entriesSame {entries others : List (String × Value)}
    (same : EntriesSame entries others) : entries.map Prod.fst = others.map Prod.fst := by
  induction entries generalizing others with
  | nil =>
    cases others with
    | nil => rfl
    | cons other others => cases same
  | cons entry rest ih =>
    cases others with
    | nil => cases same
    | cons other others =>
      obtain ⟨key, _, later⟩ := same
      rw [List.map_cons, List.map_cons, key, ih later]

mutual

/-- What is the same as a value that scripts hold is one that they hold. -/
theorem Value.Same.isPortable : ∀ {value other : Value}, value.Same other → other.IsPortable →
    value.IsPortable
  | .null, _, _, _ => trivial
  | .bool _, _, _, _ => trivial
  | .text _, _, _, _ => trivial
  | .int number, other, same, portable => by
    obtain rfl : Value.int number = other := by simpa [Value.Same] using same
    exact portable
  | .float number, other, same, portable => by
    obtain rfl : Value.float number = other := by simpa [Value.Same] using same
    exact portable
  | .array items, other, same, portable => by
    cases other with
    | array others => exact itemsPortable_of_same same portable
    | _ => cases same
  | .object entries, other, same, portable => by
    cases other with
    | object others =>
      obtain ⟨reordered, moved, same⟩ := same
      obtain ⟨distinct, portable⟩ := portable
      constructor
      · rw [keys_eq_of_entriesSame same]
        exact (moved.map Prod.fst).nodup_iff.mpr distinct
      · apply entriesPortable_of_same same
        rw [entriesPortable_iff] at portable ⊢
        exact fun entry member => portable entry (moved.subset member)
    | _ => cases same

theorem itemsPortable_of_same : ∀ {items others : List Value}, ItemsSame items others →
    ItemsPortable others → ItemsPortable items
  | [], _, _, _ => trivial
  | _ :: _, [], same, _ => nomatch same
  | _ :: _, _ :: _, ⟨first, rest⟩, ⟨portable, others⟩ =>
    ⟨first.isPortable portable, itemsPortable_of_same rest others⟩

theorem entriesPortable_of_same : ∀ {entries others : List (String × Value)},
    EntriesSame entries others → EntriesPortable others → EntriesPortable entries
  | [], _, _, _ => trivial
  | _ :: _, [], same, _ => nomatch same
  | (_, _) :: _, (_, _) :: _, ⟨_, first, rest⟩, ⟨portable, others⟩ =>
    ⟨first.isPortable portable, entriesPortable_of_same rest others⟩

end

end Json

namespace Script

open Json (ItemsPortable EntriesPortable)

/-! ## Values that come back from scripts -/

theorem exists_toJson?_float (number : Float) :
    ∃ copy, (Value.float number).toJson? = some copy ∧ copy.IsPortable := by
  rw [Value.toJson?]
  split
  next finite => exact ⟨.float number, rfl, finite⟩
  next => exact ⟨.null, rfl, trivial⟩

mutual

/-- Whatever goes into a script, what comes back is held by scripts. -/
theorem exists_toJson?_ofJson : ∀ value : Json.Value,
    ∃ copy, (Value.ofJson value).toJson? = some copy ∧ copy.IsPortable
  | .null => ⟨.null, rfl, trivial⟩
  | .bool flag => ⟨.bool flag, rfl, trivial⟩
  | .text content => ⟨.text content, rfl, trivial⟩
  | .int number => by
    rw [Value.ofJson]
    split
    next fits => exact ⟨.int number, rfl, fits⟩
    next => exact exists_toJson?_float _
  | .float number => exists_toJson?_float number
  | .array items => by
    obtain ⟨copies, known, portable⟩ := exists_toJsonItems?_ofJsonItems items
    exact ⟨.array copies, by rw [Value.ofJson, Value.toJson?, known]; rfl, portable⟩
  | .object entries => by
    obtain ⟨copies, known, portable⟩ := exists_toJsonEntries?_ofJsonEntries entries
    refine ⟨.object (sortedMap copies), ?_, nodup_keys_sortedMap copies, ?_⟩
    · rw [Value.ofJson, Value.toJson?, toJsonEntries?_sortedMap known]
      rfl
    · rw [Json.entriesPortable_iff] at portable ⊢
      exact fun entry member => portable entry (mem_sortedMap member)

theorem exists_toJsonItems?_ofJsonItems : ∀ items : List Json.Value,
    ∃ copies, toJsonItems? (ofJsonItems items) = some copies ∧ ItemsPortable copies
  | [] => ⟨[], rfl, trivial⟩
  | item :: rest => by
    obtain ⟨copy, first, portable⟩ := exists_toJson?_ofJson item
    obtain ⟨copies, others, portables⟩ := exists_toJsonItems?_ofJsonItems rest
    exact ⟨copy :: copies, by rw [ofJsonItems, toJsonItems?, first, others], portable, portables⟩

theorem exists_toJsonEntries?_ofJsonEntries : ∀ entries : List (String × Json.Value),
    ∃ copies, toJsonEntries? (ofJsonEntries entries) = some copies ∧ EntriesPortable copies
  | [] => ⟨[], rfl, trivial⟩
  | (key, value) :: rest => by
    obtain ⟨copy, first, portable⟩ := exists_toJson?_ofJson value
    obtain ⟨copies, others, portables⟩ := exists_toJsonEntries?_ofJsonEntries rest
    refine ⟨(key, copy) :: copies, ?_, portable, portables⟩
    rw [ofJsonEntries, toJsonEntries?, first, others]

end

theorem same_toJson_ofJson_iff (value : Json.Value) :
    value.Same (Value.ofJson value).toJson ↔ value.IsPortable := by
  constructor
  · intro same
    obtain ⟨copy, known, portable⟩ := exists_toJson?_ofJson value
    rw [Value.toJson, known] at same
    exact same.isPortable portable
  · intro portable
    rw [toJson_ofJson portable]
    exact value.same_sorted

/-! ## Names as scripts -/

/-- A name that scripts read as a variable: one word that the grammar does not use. -/
structure IsVariable (name : String) : Prop where
  letters : ∀ char ∈ name.toList, isNamePart char = true
  token : wordToken? name.toList = some (.name name)

variable {name : String}

theorem isName_of_wordToken? {word : List Char} (read : wordToken? word = some (.name name)) :
    isName word = true := by
  unfold wordToken? at read
  dsimp only at read
  split at read
  next => cases read
  next =>
    split at read
    next => cases read
    next =>
      split at read
      next => cases read
      next =>
        split at read
        next known => exact known
        next => cases read

theorem IsVariable.starts (isVariable : IsVariable name) :
    ∃ first word, name.toList = first :: word ∧ isNameStart first = true := by
  have known := isName_of_wordToken? isVariable.token
  cases written : name.toList with
  | nil =>
    rw [written] at known
    cases known
  | cons first word =>
    refine ⟨first, word, rfl, ?_⟩
    rw [written, isName] at known
    rw [isNameStart, Bool.or_eq_true]
    cases underscore : first == '_' with
    | true => exact Or.inr rfl
    | false =>
      rw [List.dropWhile_cons, underscore] at known
      exact Or.inl known

theorem IsVariable.isBindable (isVariable : IsVariable name) : isBindable name = true := by
  obtain ⟨first, word, written, starts⟩ := isVariable.starts
  have letters := isVariable.letters
  rw [written] at letters
  rw [Recast.isBindable, written]
  dsimp only
  rw [Bool.and_eq_true, List.all_eq_true]
  exact ⟨starts, fun char member => letters char (List.mem_cons_of_mem _ member)⟩

theorem exists_word_of_isBindable (bindable : isBindable name = true) :
    ∃ first word, name.toList = first :: word ∧ isNameStart first = true ∧
      ∀ char ∈ first :: word, isNamePart char = true := by
  unfold isBindable at bindable
  split at bindable
  next => cases bindable
  next first word written =>
    rw [Bool.and_eq_true, List.all_eq_true] at bindable
    obtain ⟨starts, parts⟩ := bindable
    exact ⟨first, word, written, starts,
      List.forall_mem_cons.mpr ⟨isNamePart_of_isNameStart starts, parts⟩⟩

theorem lex?_bindable (bindable : isBindable name = true) :
    lex? name.toList = (wordToken? name.toList).map ([·]) := by
  obtain ⟨first, word, written, starts, letters⟩ := exists_word_of_isBindable bindable
  have read := lexFrom_parts starts letters (first :: word).length [] false stopsWord_nil
  rw [List.append_nil] at read
  rw [lex?, written, read]
  cases wordToken? (first :: word) <;> rfl

theorem lex?_variable (isVariable : IsVariable name) : lex? name.toList = some [.name name] := by
  rw [lex?_bindable isVariable.isBindable, isVariable.token]
  rfl

theorem compile?_variable (isVariable : IsVariable name) :
    compile? name = some ⟨.variable name, []⟩ := by
  rw [compile?, lex?_variable isVariable]
  dsimp only [bind, Option.bind]
  rw [parse?_name]
  rfl

end Script

namespace Template

theorem singleHole?_bindable {name : String} (bindable : isBindable name = true) :
    singleHole? (Placeholder.token name).toList = some name.toList := by
  obtain ⟨first, word, written, starts, letters⟩ := Script.exists_word_of_isBindable bindable
  have calm : ∀ char ∈ name.toList, staysOutside char = true := by
    rw [written]
    exact fun char member => Script.staysOutside_of_isNamePart (letters char member)
  have shown : Text.isAllBlank name.toList = false := by
    rw [Text.isAllBlank, written, List.all_cons, Script.isBlank_of_isNameStart starts]
    rfl
  rw [toList_token]
  exact singleHole?_outside calm shown []

end Template

open Template in
/-- The copy of a field that a template gives is the same value exactly if its integers have 64
bits with their sign. -/
theorem expand_field_iff [Host] {event : Event} {name : String} {value : Json.Value}
    (inRange : Calendar.isInRange event.time = true) (distinct : (Assoc.keys event.record).Nodup)
    (isVariable : Script.IsVariable name) (found : Assoc.get? event.record name = some value)
    (hostname : String) :
    ∃ copy, (⟨.expression, hostname, true⟩ : Settings).expand event (Placeholder.token name) =
        .ok copy ∧ (value.Same copy ↔ value.IsPortable) := by
  have compiled : Script.compile? (String.ofList (rewrite true (Placeholder.token name).toList)) =
      some ⟨.variable name, []⟩ := by
    rw [rewrite, if_pos rfl, singleHole?_bindable isVariable.isBindable]
    dsimp only
    rw [String.ofList_toList]
    exact Script.compile?_variable isVariable
  have bound : Script.binding? (eventBindings event hostname) name =
      some (.fixed name (Script.Value.ofJson value)) := by
    rw [binding?_event distinct isVariable.isBindable, found]
    rfl
  refine ⟨(Script.Value.ofJson value).toJson, ?_, Script.same_toJson_ofJson_iff value⟩
  rw [Settings.expand_of_compile? inRange compiled, Script.run_variable bound]
  rfl

private theorem isVariable_letter {letter : String} (known : letter ∈ ["n", "o"]) :
    Script.IsVariable letter := by
  simp only [List.mem_cons, List.not_mem_nil, or_false] at known
  rcases known with rfl | rfl
  · exact ⟨by simp [Script.isNamePart], by cbv⟩
  · exact ⟨by simp [Script.isNamePart], by cbv⟩

/-- A nested value is copied as it is, but not an integer that needs all 64 bits unsigned. -/
theorem expand_field_iff_unsigned :
    let largest : Json.Value := .int 18446744073709551615
    let nested : Json.Value := .object [("b", .array [.int (-9223372036854775808), .null]),
      ("a", .object [])]
    let event : Event := ⟨"a", 0, [("n", largest), ("o", nested)]⟩
    let settings : Settings := ⟨.expression, "h", true⟩
    (∃ copy, settings.expand event "$\x7bn\x7d" = .ok copy ∧ ¬ largest.Same copy) ∧
      ∃ copy, settings.expand event "$\x7bo\x7d" = .ok copy ∧ nested.Same copy := by
  intro largest nested event settings
  have inRange : Calendar.isInRange event.time = true := by decide
  have distinct : (Assoc.keys event.record).Nodup := by decide
  have foundLargest : Assoc.get? event.record "n" = some largest := rfl
  have foundNested : Assoc.get? event.record "o" = some nested := rfl
  obtain ⟨rounded, first, same⟩ := expand_field_iff inRange distinct
    (isVariable_letter (by decide)) foundLargest "h"
  obtain ⟨kept, second, exact⟩ := expand_field_iff inRange distinct
    (isVariable_letter (by decide)) foundNested "h"
  constructor
  · refine ⟨rounded, first, fun held => ?_⟩
    have portable : Script.isInt 18446744073709551615 = true := same.mp held
    cases portable
  · have smallest : Script.isInt (-9223372036854775808) = true := rfl
    refine ⟨kept, second, exact.mpr ⟨by decide, ⟨smallest, trivial, trivial⟩, ?_⟩⟩
    exact ⟨⟨List.nodup_nil, trivial⟩, trivial⟩

end Recast
