set_option autoImplicit false

/-!
# Searching and splitting

Splitting at a separator, locating and replacing a text inside another. All positions count
characters.
-/

namespace Recast.Text

/-- The fields between separators. There is always one field more than there are separators. -/
def splitAt (separator : Char) : List Char → List (List Char)
  | [] => [[]]
  | char :: rest =>
    if char = separator then [] :: splitAt separator rest
    else
      match splitAt separator rest with
      | field :: fields => (char :: field) :: fields
      | [] => [[char]]

theorem splitAt_ne_nil (separator : Char) (text : List Char) : splitAt separator text ≠ [] := by
  cases text with
  | nil => simp [splitAt]
  | cons char rest =>
    simp only [splitAt]
    split
    · simp
    · split <;> simp

theorem splitAt_cons_of_ne {separator char : Char} (ne : char ≠ separator) (rest : List Char) :
    ∃ field fields, splitAt separator rest = field :: fields ∧
      splitAt separator (char :: rest) = (char :: field) :: fields := by
  cases found : splitAt separator rest with
  | nil => exact absurd found (splitAt_ne_nil separator rest)
  | cons field fields => exact ⟨field, fields, rfl, by simp [splitAt, ne, found]⟩

theorem intercalate_splitAt (separator : Char) (text : List Char) :
    List.intercalate [separator] (splitAt separator text) = text := by
  induction text with
  | nil => rfl
  | cons char rest ih =>
    by_cases same : char = separator
    · have step : splitAt separator (char :: rest) = [] :: splitAt separator rest := by
        simp [splitAt, same]
      rw [step]
      cases found : splitAt separator rest with
      | nil => exact absurd found (splitAt_ne_nil separator rest)
      | cons field fields =>
        rw [found] at ih
        simp [List.intercalate_cons_cons, ih, same]
    · obtain ⟨field, fields, found, step⟩ := splitAt_cons_of_ne same rest
      rw [found] at ih
      rw [step, ← ih]
      cases fields with
      | nil => simp [List.intercalate_singleton]
      | cons next others => simp [List.intercalate_cons_cons]

theorem not_mem_of_mem_splitAt {separator : Char} {text field : List Char}
    (member : field ∈ splitAt separator text) : separator ∉ field := by
  induction text generalizing field with
  | nil => simp_all [splitAt]
  | cons char rest ih =>
    by_cases same : char = separator
    · simp only [splitAt, same, if_true, List.mem_cons] at member
      rcases member with rfl | member
      · simp
      · exact ih member
    · obtain ⟨first, fields, found, step⟩ := splitAt_cons_of_ne same rest
      rw [step, List.mem_cons] at member
      rcases member with rfl | member
      · have fresh := ih (found ▸ List.mem_cons_self : first ∈ splitAt separator rest)
        rw [List.mem_cons, not_or]
        exact ⟨fun equal => same equal.symm, fresh⟩
      · exact ih (found ▸ List.mem_cons_of_mem _ member)

theorem length_splitAt (separator : Char) (text : List Char) :
    (splitAt separator text).length = text.count separator + 1 := by
  induction text with
  | nil => rfl
  | cons char rest ih =>
    by_cases same : char = separator
    · simp [splitAt, same, ih]
    · obtain ⟨field, fields, found, step⟩ := splitAt_cons_of_ne same rest
      rw [found] at ih
      rw [step, List.count_cons_of_ne (fun equal => same equal), ← ih]
      rfl

def afterStart? {α : Type} [DecidableEq α] : List α → List α → Option (List α)
  | [], text => some text
  | _ :: _, [] => none
  | expected :: start, char :: text =>
    if expected = char then afterStart? start text else none

def findFrom? (part : List Char) (position : Nat) : List Char → Option Nat
  | [] => if part.isEmpty then some position else none
  | char :: rest =>
    if (afterStart? part (char :: rest)).isSome then some position
    else findFrom? part (position + 1) rest

def find? (part text : List Char) : Option Nat :=
  findFrom? part 0 text

/-- Every occurrence of a non-empty part, taken from the left without overlap, gives way to
`other`. `skip` counts characters of an occurrence that has already been replaced. -/
def replaceFrom (part other : List Char) (skip : Nat) : List Char → List Char
  | [] => []
  | char :: rest =>
    match skip with
    | skip + 1 => replaceFrom part other skip rest
    | 0 =>
      if (afterStart? part (char :: rest)).isSome then
        other ++ replaceFrom part other (part.length - 1) rest
      else char :: replaceFrom part other 0 rest

def interleave (other : List Char) : List Char → List Char
  | [] => other
  | char :: rest => other ++ char :: interleave other rest

def replaceAll (part other text : List Char) : List Char :=
  if part.isEmpty then interleave other text else replaceFrom part other 0 text

def fieldsFrom (part : List Char) (skip : Nat) (field : List Char) :
    List Char → List (List Char)
  | [] => [field.reverse]
  | char :: rest =>
    match skip with
    | skip + 1 => fieldsFrom part skip field rest
    | 0 =>
      if (afterStart? part (char :: rest)).isSome then
        field.reverse :: fieldsFrom part (part.length - 1) [] rest
      else fieldsFrom part 0 (char :: field) rest

/-- The fields between occurrences of `part`. An empty part separates every character and both
ends. -/
def fields (part text : List Char) : List (List Char) :=
  if part.isEmpty then [] :: text.map (fun char => [char]) ++ [[]]
  else fieldsFrom part 0 [] text

/-- Keeps the first `limit - 1` fields and joins the others again with the separator. -/
def limitFields (part : List Char) (limit : Nat) (all : List (List Char)) : List (List Char) :=
  if limit = 0 then []
  else if all.length ≤ limit then all
  else all.take (limit - 1) ++ [List.intercalate part (all.drop (limit - 1))]

def wordsBy (isGap : Char → Bool) (word : List Char) : List Char → List (List Char)
  | [] => if word.isEmpty then [] else [word.reverse]
  | char :: rest =>
    if isGap char then
      if word.isEmpty then wordsBy isGap [] rest else word.reverse :: wordsBy isGap [] rest
    else wordsBy isGap (char :: word) rest

def byteCount (text : List Char) : Nat :=
  text.foldl (fun total char => total + char.utf8Size) 0

end Recast.Text
