import Mathlib.Data.List.DropRight
import Recast.Fields
import Recast.Proofs.Separators

set_option autoImplicit false

/-!
# Removed keys

A list of keys keeps exactly the fields that it does not name, in their order. So it does not
matter in which order a list names keys and how often, and two lists with a comma between them
remove what they remove one after the other.
-/

namespace Recast

/-! ## Trimmed texts -/

namespace Text

variable {text core : List Char}

/-- What is left of a text without the blanks around it. -/
structure IsCore (text core : List Char) : Prop where
  around : ∃ left right, text = left ++ core ++ right ∧
    (∀ char ∈ left, isBlank char = true) ∧ ∀ char ∈ right, isBlank char = true
  first : ∀ char ∈ core.head?, isBlank char = false
  last : ∀ char ∈ core.getLast?, isBlank char = false

theorem isCore_trim (text : List Char) : IsCore text (trim text) := by
  have left : text.takeWhile isBlank ++ trimLeft text = text := List.takeWhile_append_dropWhile
  have right : trim text ++ (trimLeft text).rtakeWhile isBlank = trimLeft text :=
    List.rdropWhile_append_rtakeWhile
  refine ⟨⟨text.takeWhile isBlank, (trimLeft text).rtakeWhile isBlank, ?_,
    fun _ => List.mem_takeWhile_imp, fun _ => List.mem_rtakeWhile_imp⟩, ?_, ?_⟩
  · rw [List.append_assoc, right, left]
  · intro char first
    have starts := List.head?_dropWhile_not isBlank text
    -- What is left begins as it did before its end was cut.
    rw [show text.dropWhile isBlank = trim text ++ _ from right.symm, List.head?_append,
      Option.mem_def.mp first] at starts
    exact starts
  · intro char last
    rw [trim, trimRight, List.getLast?_reverse] at last
    have ends := List.head?_dropWhile_not isBlank (trimLeft text).reverse
    rw [Option.mem_def.mp last] at ends
    exact ends

theorem dropWhile_of_first (shown : ∀ char ∈ text.head?, isBlank char = false) :
    text.dropWhile isBlank = text := by
  cases text with
  | nil => rfl
  | cons char rest => exact List.dropWhile_cons_of_neg (by simp [shown char rfl])

theorem IsCore.trim_eq (isCore : IsCore text core) : trim text = core := by
  obtain ⟨⟨left, right, rfl, blankLeft, blankRight⟩, first, last⟩ := isCore
  have cut : trimLeft (left ++ core ++ right) = (core ++ right).dropWhile isBlank := by
    rw [trimLeft, List.append_assoc, List.dropWhile_append_of_pos blankLeft]
  rw [trim, cut]
  by_cases blank : core = []
  · rw [blank, List.nil_append, List.dropWhile_eq_nil_iff.mpr blankRight]
    rfl
  · have starts : (core ++ right).dropWhile isBlank = core ++ right := by
      apply dropWhile_of_first
      rwa [List.head?_append_of_ne_nil core blank]
    have ends : core.reverse.dropWhile isBlank = core.reverse := by
      apply dropWhile_of_first
      rwa [List.head?_reverse]
    rw [starts, trimRight, List.reverse_append,
      List.dropWhile_append_of_pos fun char member => blankRight char (List.mem_reverse.mp member),
      ends, List.reverse_reverse]

theorem isCore_iff : IsCore text core ↔ trim text = core :=
  ⟨IsCore.trim_eq, fun same => same ▸ isCore_trim text⟩

end Text

/-! ## Fields that are left -/

namespace Assoc

variable {α : Type}

/-- Deleting a key takes its one entry out and closes the gap. -/
theorem erase_eq_eraseP {entries : Assoc α} (distinct : (keys entries).Nodup) (key : String) :
    erase entries key = entries.eraseP fun entry => entry.1 == key := by
  induction entries with
  | nil => rfl
  | cons entry rest ih =>
    obtain ⟨fresh, others⟩ := List.nodup_cons.mp distinct
    by_cases same : entry.1 = key
    · have absent : ∀ other ∈ rest, (other.1 != key) = true := by
        intro other member
        rw [bne_iff_ne]
        rintro rfl
        exact fresh (same ▸ List.mem_map_of_mem member)
      rw [List.eraseP_cons_of_pos (by simpa using same)]
      simp [erase, same, List.filter_eq_self.mpr absent]
    · have ih := ih others
      simp only [erase] at ih
      simp [erase, same, ih]

theorem foldl_erase_eq_filter (entries : Assoc α) (dropped : List String) :
    dropped.foldl erase entries = entries.filter fun entry => decide (entry.1 ∉ dropped) := by
  induction dropped generalizing entries with
  | nil => simp
  | cons key rest ih =>
    rw [List.foldl_cons, ih, erase, List.filter_filter]
    refine List.filter_congr fun entry _ => ?_
    by_cases same : entry.1 = key <;> simp [same]

theorem foldl_erase_eq_foldl_eraseP {entries : Assoc α} (distinct : (keys entries).Nodup)
    (dropped : List String) :
    dropped.foldl erase entries =
      dropped.foldl (fun entries key => entries.eraseP fun entry => entry.1 == key) entries := by
  induction dropped generalizing entries with
  | nil => rfl
  | cons key rest ih =>
    have still : (keys (erase entries key)).Nodup := by
      rw [keys_erase]
      exact distinct.filter _
    rw [List.foldl_cons, List.foldl_cons, ih still, erase_eq_eraseP distinct]

end Assoc

namespace RemoveKeys

/-- A list names a key: one of the pieces between its commas is the key, with blanks around it. -/
def Names (list key : String) : Prop :=
  ∃ piece, Text.IsField ',' list.toList piece ∧ Text.IsCore piece key.toList

theorem mem_parse_iff {list key : String} : key ∈ parse list ↔ Names list key := by
  simp only [parse, List.mem_map, Text.mem_splitAt_iff, Names, Text.isCore_iff, String.ext_iff,
    String.toList_ofList]

theorem parse_append (list other : String) :
    parse (list ++ "," ++ other) = parse list ++ parse other := by
  have text : (list ++ "," ++ other).toList = list.toList ++ ',' :: other.toList := by simp
  rw [parse, text, Text.splitAt_append, List.map_append]
  rfl

instance (list key : String) : Decidable (Names list key) :=
  decidable_of_iff _ mem_parse_iff

theorem apply_parse (list : String) (record : Record) :
    apply (parse list) record = record.filter fun field => decide (¬ Names list field.1) := by
  rw [apply, Assoc.foldl_erase_eq_filter]
  simp only [mem_parse_iff]

/-- A list keeps exactly the fields that it does not name, in their order, which is what taking out
the named fields one by one gives. So doing it again removes no more, lists that name the same keys
remove the same, and two lists with a comma between them remove in turn what each names. -/
theorem removal_filters (list : String) (record : Record) :
    apply (parse list) record = record.filter (fun field => decide (¬ Names list field.1)) ∧
    ((Assoc.keys record).Nodup → apply (parse list) record =
      (parse list).foldl (fun left key => left.eraseP fun field => field.1 == key) record) ∧
    apply (parse list) (apply (parse list) record) = apply (parse list) record ∧
    (∀ other, (∀ key, Names other key ↔ Names list key) →
      apply (parse other) record = apply (parse list) record) ∧
    ∀ other, apply (parse (list ++ "," ++ other)) record =
      apply (parse other) (apply (parse list) record) := by
  refine ⟨apply_parse list record,
    fun distinct => Assoc.foldl_erase_eq_foldl_eraseP distinct (parse list), ?_, ?_, ?_⟩
  · simp only [apply_parse, List.filter_filter, Bool.and_self]
  · intro other same
    simp only [apply_parse, same]
  · intro other
    rw [parse_append, apply, List.foldl_append]
    rfl

/-- A list with blank and repeated pieces and with an absent key. -/
theorem removal_filters_repeated :
    let record : Record := [("d", .int 1), ("b", .int 2), ("c", .int 3), ("a", .int 4)]
    (Assoc.keys record).Nodup ∧ (∀ key, Names "a ,b,a" key ↔ Names "b,a" key) ∧
      apply (parse "b,a") record =
        (parse "b,a").foldl (fun left key => left.eraseP fun field => field.1 == key) record ∧
      apply (parse "a ,b,a") record = apply (parse "b,a") record ∧
      apply (parse ("b,, x ,b" ++ "," ++ " a")) record = [("d", .int 1), ("c", .int 3)] := by
  intro record
  have distinct : (Assoc.keys record).Nodup := by decide
  have pieces : parse "b,a" = ["b", "a"] ∧ parse "a ,b,a" = ["a", "b", "a"] := by decide +kernel
  have same : ∀ key, Names "a ,b,a" key ↔ Names "b,a" key := by
    intro key
    rw [← mem_parse_iff, ← mem_parse_iff, pieces.1, pieces.2]
    simp [or_comm]
  obtain ⟨_, inPlace, _, order, _⟩ := removal_filters "b,a" record
  refine ⟨distinct, same, inPlace distinct, order _ same, ?_⟩
  rw [(removal_filters "b,, x ,b" record).2.2.2.2 " a"]
  cbv

end RemoveKeys

end Recast
