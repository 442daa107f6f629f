import Recast.Text.Search

set_option autoImplicit false

/-!
# Fields between separators

What the fields of a text are, and that no other fields give the same text when they are joined.
-/

namespace Recast.Text

variable {separator : Char} {text : List Char}

theorem splitAt_append (left right : List Char) :
    splitAt separator (left ++ separator :: right) =
      splitAt separator left ++ splitAt separator right := by
  induction left with
  | nil => simp [splitAt]
  | cons char rest ih =>
    by_cases same : char = separator
    · simp [splitAt, same, ih]
    · obtain ⟨field, fields, found, step⟩ := splitAt_cons_of_ne same rest
      rw [step, List.cons_append, splitAt, if_neg same, ih, found]
      rfl

theorem splitAt_of_notMem (absent : separator ∉ text) : splitAt separator text = [text] := by
  induction text with
  | nil => rfl
  | cons char rest ih =>
    obtain ⟨other, others⟩ := not_or.mp (mt List.mem_cons.mpr absent)
    simp [splitAt, Ne.symm other, ih others]

/-- Fields without the separator are the fields of the text that they make. -/
theorem splitAt_intercalate {fields : List (List Char)} (filled : fields ≠ [])
    (free : ∀ field ∈ fields, separator ∉ field) :
    splitAt separator (List.intercalate [separator] fields) = fields := by
  induction fields with
  | nil => exact absurd rfl filled
  | cons field rest ih =>
    rw [List.forall_mem_cons] at free
    obtain ⟨first, others⟩ := free
    cases rest with
    | nil => rw [List.intercalate_singleton, splitAt_of_notMem first]
    | cons next rest =>
      rw [List.intercalate_cons_cons, List.append_assoc, List.singleton_append, splitAt_append,
        splitAt_of_notMem first, ih (List.cons_ne_nil _ _) others]
      rfl

/-- Some fields, at least one and none with the separator, are those of a text exactly if joining
them gives the text. -/
theorem eq_splitAt_iff {fields : List (List Char)} :
    fields = splitAt separator text ↔
      fields ≠ [] ∧ (∀ field ∈ fields, separator ∉ field) ∧
        List.intercalate [separator] fields = text := by
  constructor
  · rintro rfl
    exact ⟨splitAt_ne_nil separator text, fun _ => not_mem_of_mem_splitAt,
      intercalate_splitAt separator text⟩
  · rintro ⟨filled, free, rfl⟩
    exact (splitAt_intercalate filled free).symm

theorem intercalate_cons (field : List Char) (others : List (List Char)) :
    List.intercalate [separator] (field :: others) = field ++ others.flatMap (separator :: ·) := by
  induction others generalizing field with
  | nil => simp
  | cons other others ih => simp [List.intercalate_cons_cons, ih other]

theorem intercalate_append {fields : List (List Char)} (filled : fields ≠ [])
    (others : List (List Char)) :
    List.intercalate [separator] (fields ++ others) =
      List.intercalate [separator] fields ++ others.flatMap (separator :: ·) := by
  obtain ⟨field, rest, rfl⟩ := List.exists_cons_of_ne_nil filled
  rw [List.cons_append, intercalate_cons, intercalate_cons, List.flatMap_append, List.append_assoc]

theorem intercalate_append_cons {fields : List (List Char)} (filled : fields ≠ [])
    (field : List Char) (others : List (List Char)) :
    List.intercalate [separator] (fields ++ field :: others) =
      List.intercalate [separator] fields ++
        separator :: List.intercalate [separator] (field :: others) := by
  rw [intercalate_append filled, intercalate_cons field, List.flatMap_cons, List.cons_append]

/-! ## One field -/

/-- A field of a text holds no separator and is bounded on both sides, by a separator or an end. -/
structure IsField (separator : Char) (text field : List Char) : Prop where
  free : separator ∉ field
  bounded : ∃ before after, text = before ++ field ++ after ∧
    (before = [] ∨ ∃ front, before = front ++ [separator]) ∧
    (after = [] ∨ ∃ back, after = separator :: back)

theorem mem_splitAt_iff {field : List Char} :
    field ∈ splitAt separator text ↔ IsField separator text field := by
  constructor
  · intro member
    refine ⟨not_mem_of_mem_splitAt member, ?_⟩
    obtain ⟨front, back, fields⟩ := List.append_of_mem member
    have whole := intercalate_splitAt separator text
    have closed : back.flatMap (separator :: ·) = [] ∨
        ∃ rest, back.flatMap (separator :: ·) = separator :: rest := by
      cases back with
      | nil => exact .inl rfl
      | cons next back => exact .inr ⟨_, rfl⟩
    by_cases first : front = []
    · rw [fields, first, List.nil_append, intercalate_cons] at whole
      exact ⟨[], _, whole.symm, .inl rfl, closed⟩
    · rw [fields, intercalate_append first, List.flatMap_cons] at whole
      refine ⟨List.intercalate [separator] front ++ [separator], _, ?_, .inr ⟨_, rfl⟩, closed⟩
      rw [← whole]
      simp
  · rintro ⟨free, before, after, rfl, opened, closed⟩
    have front : field ∈ splitAt separator (field ++ after) := by
      obtain rfl | ⟨back, rfl⟩ := closed
      · simp [splitAt_of_notMem free]
      · simp [splitAt_append, splitAt_of_notMem free]
    obtain rfl | ⟨start, rfl⟩ := opened
    · simpa using front
    · rw [List.append_assoc, List.append_assoc, List.singleton_append, splitAt_append]
      exact List.mem_append_right _ front

end Recast.Text
