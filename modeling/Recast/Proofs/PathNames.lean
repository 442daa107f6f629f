import Mathlib.Data.List.DropRight
import Recast.Proofs.PercentCoding
import Recast.Proofs.Separators

set_option autoImplicit false

/-!
# Names on a path

What a path names: a root or none, and the names between its slashes, single points left out. The
parent of a path has the same root and all names but the last. The last component is the last name,
unless this is a double point or there is none, where it is the whole path.
-/

namespace Recast

namespace Path

/-- The names on a path, in order: its components that are neither empty nor single points. -/
def names (path : List Char) : List (List Char) :=
  (Text.splitAt '/' path).filter fun component => !isIdle component

def isRooted (path : List Char) : Bool :=
  path.head? == some '/'

/-- Two paths lead to one place from wherever they start: they have the same root and names. -/
def Same (path other : List Char) : Prop :=
  isRooted path = isRooted other ∧ names path = names other

instance (path other : List Char) : Decidable (Same path other) :=
  inferInstanceAs (Decidable (_ ∧ _))

/-! ## Names -/

@[simp] theorem names_nil : names [] = [] := rfl

theorem names_append (left right : List Char) :
    names (left ++ '/' :: right) = names left ++ names right := by
  rw [names, Text.splitAt_append, List.filter_append]
  rfl

theorem names_slash (path : List Char) : names ('/' :: path) = names path :=
  names_append [] path

theorem of_mem_names {path name : List Char} (member : name ∈ names path) :
    '/' ∉ name ∧ isIdle name = false := by
  obtain ⟨field, shown⟩ := List.mem_filter.mp member
  exact ⟨Text.not_mem_of_mem_splitAt field, by simpa using shown⟩

/-- A name alone is a path with just this name. -/
theorem names_of_mem_names {path name : List Char} (member : name ∈ names path) :
    names name = [name] := by
  obtain ⟨free, shown⟩ := of_mem_names member
  simp [names, Text.splitAt_of_notMem free, shown]

theorem names_intercalate {fields : List (List Char)} (free : ∀ field ∈ fields, '/' ∉ field) :
    names (List.intercalate ['/'] fields) = fields.filter fun field => !isIdle field := by
  by_cases none : fields = []
  · rw [none]
    rfl
  · rw [names, Text.splitAt_intercalate none free]

/-! ## Components -/

theorem filter_dropIdle (fields : List (List Char)) :
    (dropIdle fields).filter (fun field => !isIdle field) =
      fields.filter fun field => !isIdle field := by
  have whole : dropIdle fields ++ fields.rtakeWhile isIdle = fields :=
    List.rdropWhile_append_rtakeWhile
  have idle : (fields.rtakeWhile isIdle).filter (fun field => !isIdle field) = [] :=
    List.filter_eq_nil_iff.mpr fun field member => by simp [List.mem_rtakeWhile_imp member]
  conv_rhs => rw [← whole, List.filter_append, idle, List.append_nil]

theorem names_lead (path : List Char) : names (path.take (leadLength path)) = [] := by
  unfold leadLength
  split <;> rfl

theorem names_drop_lead (path : List Char) : names (path.drop (leadLength path)) = names path := by
  unfold leadLength
  split
  next rest => exact (names_slash rest).symm
  next => rfl
  next rest => exact (names_slash rest).trans (names_append ['.'] rest).symm
  next => rfl

theorem names_eq_filter (path : List Char) :
    names path = (components path).filter fun field => !isIdle field := by
  rw [components, filter_dropIdle, ← names, names_drop_lead]

theorem names_of_components {path name : List Char} {front : List (List Char)}
    (found : components path = front ++ [name]) :
    names path = (front.filter fun field => !isIdle field) ++ [name] := by
  have filled : components path ≠ [] := by simp [found]
  have shown : ¬ isIdle ((components path).getLast filled) = true :=
    List.rdropWhile_last_not isIdle _ filled
  rw [List.getLast_congr filled (by simp) found, List.getLast_concat] at shown
  rw [names_eq_filter, found, List.filter_append]
  simp [shown]

/-- A path has no components and no names, or the last component is the last name. -/
theorem components_cases (path : List Char) :
    (components path = [] ∧ names path = []) ∨
      ∃ front name, components path = front ++ [name] ∧
        names path = (front.filter fun field => !isIdle field) ++ [name] := by
  obtain none | ⟨front, name, found⟩ := List.eq_nil_or_concat' (components path)
  · exact .inl ⟨none, by rw [names_eq_filter, none]; rfl⟩
  · exact .inr ⟨front, name, found, names_of_components found⟩

theorem basename_eq (path : List Char) :
    basename path =
      match (names path).getLast? with
      | some name => if name = ['.', '.'] then path else name
      | none => path := by
  obtain ⟨none, unnamed⟩ | ⟨front, name, found, named⟩ := components_cases path
  · simp only [basename, none, unnamed, List.getLast?_nil]
  · rw [basename, found, named, List.getLast?_concat, List.getLast?_concat]

/-! ## The parent -/

/-- The parent of a path with some components before its last one; it may be empty. -/
def parentText (path : List Char) (front : List (List Char)) : List Char :=
  path.take (leadLength path) ++ List.intercalate ['/'] (dropIdle front)

section Parent

variable {path name : List Char} {front : List (List Char)}

theorem dirname_eq (found : components path = front ++ [name]) :
    dirname path = if parentText path front = [] then ['.'] else parentText path front := by
  rw [dirname, found]
  cases front with
  | nil => simp [parentText]
  | cons first front =>
    have cut : (first :: (front ++ [name])).dropLast = first :: front :=
      @List.dropLast_concat _ (first :: front) name
    simp [parentText, cut]

/-- Unless it is only what leads a path, a parent ends at a slash. -/
theorem eq_parentText_append (found : components path = front ++ [name])
    (filled : dropIdle front ≠ []) :
    ∃ others, Text.splitAt '/' (path.drop (leadLength path)) = dropIdle front ++ others ∧
      path = parentText path front ++ '/' :: List.intercalate ['/'] others := by
  obtain ⟨after, fields⟩ : components path <+: Text.splitAt '/' (path.drop (leadLength path)) :=
    List.rdropWhile_prefix isIdle _
  have idle : dropIdle front ++ front.rtakeWhile isIdle = front :=
    List.rdropWhile_append_rtakeWhile
  obtain ⟨first, others, opened⟩ : ∃ first others,
      front.rtakeWhile isIdle ++ name :: after = first :: others :=
    List.exists_cons_of_ne_nil (by simp)
  have split : Text.splitAt '/' (path.drop (leadLength path)) =
      dropIdle front ++ first :: others := by
    rw [← fields, found, ← opened, ← List.append_assoc, idle, List.append_assoc]
    rfl
  refine ⟨first :: others, split, ?_⟩
  rw [parentText, List.append_assoc, ← Text.intercalate_append_cons filled, ← split,
    Text.intercalate_splitAt, List.take_append_drop]

theorem names_parentText (found : components path = front ++ [name]) :
    names (parentText path front) = (names path).dropLast := by
  rw [names_of_components found, List.dropLast_concat, ← filter_dropIdle]
  by_cases filled : dropIdle front = []
  · rw [parentText, filled, List.intercalate_nil, List.append_nil, names_lead]
    rfl
  · obtain ⟨others, split, whole⟩ := eq_parentText_append found filled
    have free : ∀ field ∈ others, '/' ∉ field := by
      intro field member
      exact Text.not_mem_of_mem_splitAt (split ▸ List.mem_append_right _ member)
    -- Both sides are what the names of the path begin with before those of `others`.
    have whole := congrArg names whole
    rw [names_append, names_intercalate free, ← names_drop_lead, names, split,
      List.filter_append] at whole
    exact (List.append_cancel_right whole).symm

theorem parentText_starts (found : components path = front ++ [name]) :
    parentText path front <+: path := by
  by_cases filled : dropIdle front = []
  · rw [parentText, filled, List.intercalate_nil, List.append_nil]
    exact List.take_prefix _ path
  · obtain ⟨others, _, whole⟩ := eq_parentText_append found filled
    exact ⟨_, whole.symm⟩

end Parent

theorem isRooted_of_starts {path start : List Char} (starts : start <+: path)
    (filled : start ≠ []) : isRooted start = isRooted path := by
  obtain ⟨rest, rfl⟩ := starts
  rw [isRooted, isRooted, List.head?_append_of_ne_nil start filled]

/-- Every path has a parent, with the same root and all names but the last. -/
theorem dirname_names (path : List Char) :
    dirname path ≠ [] ∧ isRooted (dirname path) = isRooted path ∧
      names (dirname path) = (names path).dropLast := by
  obtain ⟨none, unnamed⟩ | ⟨front, name, found, _⟩ := components_cases path
  · rw [dirname, none, unnamed]
    by_cases rooted : path.head? = some '/'
    · simp [isRooted, rooted, names_slash]
    · simp [isRooted, rooted, names, Text.splitAt, isIdle]
  · rw [dirname_eq found]
    by_cases empty : parentText path front = []
    · have unrooted : isRooted path = false := by
        cases path with
        | nil => rfl
        | cons char rest =>
          by_cases slash : char = '/'
          · subst slash
            simp [parentText, leadLength] at empty
          · simp [isRooted, slash]
      have none : (names path).dropLast = [] := by rw [← names_parentText found, empty]; rfl
      rw [if_pos empty, unrooted, none]
      exact ⟨List.cons_ne_nil _ _, rfl, rfl⟩
    · rw [if_neg empty]
      exact ⟨empty, isRooted_of_starts (parentText_starts found) empty, names_parentText found⟩

/-! ## Both together -/

/-- The last component has a slash only where it is the whole path. -/
theorem slash_mem_basename_iff (path : List Char) :
    '/' ∈ basename path ↔
      '/' ∈ path ∧ (names path = [] ∨ (names path).getLast? = some ['.', '.']) := by
  rw [basename_eq]
  cases last : (names path).getLast? with
  | none => simp [List.getLast?_eq_none_iff.mp last]
  | some name =>
    have member := List.mem_of_getLast? last
    have filled : names path ≠ [] := List.ne_nil_of_mem member
    by_cases up : name = ['.', '.']
    · simp [up]
    · simp [up, filled, (of_mem_names member).1]

/-- A parent and a last component make the path again, unless the path ends below a name with a
double point. -/
theorem same_joined_iff (path : List Char) :
    Same (dirname path ++ '/' :: basename path) path ↔
      ¬ ((names path).getLast? = some ['.', '.'] ∧ 1 < (names path).length) := by
  obtain ⟨filled, rooted, parents⟩ := dirname_names path
  have root : isRooted (dirname path ++ '/' :: basename path) = isRooted path :=
    (isRooted_of_starts (List.prefix_append _ _) filled).symm.trans rooted
  rw [Same, root, names_append, parents, basename_eq]
  cases last : (names path).getLast? with
  | none => simp [List.getLast?_eq_none_iff.mp last]
  | some name =>
    have whole : (names path).dropLast ++ [name] = names path :=
      List.dropLast_append_getLast? name last
    by_cases up : name = ['.', '.']
    · have same : (names path).dropLast ++ names path = names path ↔
          (names path).dropLast = [] := List.append_left_eq_self
      simp only [up, if_true, true_and, same, ← List.length_eq_zero_iff, List.length_dropLast]
      omega
    · simp [up, names_of_mem_names (List.mem_of_getLast? last), whole]

/-- The double point below a name is the last component, but the whole path is given. -/
example : basename "a/..".toList = "a/..".toList ∧ dirname "a/..".toList = "a".toList := by decide

end Path

namespace Script

theorem textOutcome?_basename (calls : Calls) (content : String) :
    textOutcome? calls "basename" content =
      some (.ok (ofChars (Path.basename content.toList))) := rfl

theorem textOutcome?_dirname (calls : Calls) (content : String) :
    textOutcome? calls "dirname" content =
      some (.ok (ofChars (Path.dirname content.toList))) := rfl

open Recast.Path in
/-- The library's two functions for paths. The parent has the same root and all names but the last,
and the last component is the last name. Where that is a double point, or where there is no name,
it is the whole path, and only there can it have a slash. So the two make the path again exactly if
it does not end in a double point below another name. -/
theorem path_functions_split (calls : Calls) (content : String) :
    let path := content.toList
    ∃ last parent : String, textOutcome? calls "basename" content = some (.ok (.text last)) ∧
      textOutcome? calls "dirname" content = some (.ok (.text parent)) ∧
      last.toList =
        (match (names path).getLast? with
        | some name => if name = ['.', '.'] then path else name
        | none => path) ∧
      parent ≠ "" ∧ isRooted parent.toList = isRooted path ∧
      names parent.toList = (names path).dropLast ∧
      ('/' ∈ last.toList ↔
        '/' ∈ path ∧ (names path = [] ∨ (names path).getLast? = some ['.', '.'])) ∧
      (Same (parent ++ "/" ++ last).toList path ↔
        ¬ ((names path).getLast? = some ['.', '.'] ∧ 1 < (names path).length)) := by
  intro path
  obtain ⟨filled, rooted, parents⟩ := dirname_names path
  refine ⟨_, _, textOutcome?_basename calls content, textOutcome?_dirname calls content, ?_⟩
  have joined : (String.ofList (dirname path) ++ "/" ++ String.ofList (basename path)).toList =
      dirname path ++ '/' :: basename path := by simp
  rw [joined, String.toList_ofList, String.toList_ofList]
  exact ⟨basename_eq path, by simpa using filled, rooted, parents, slash_mem_basename_iff path,
    same_joined_iff path⟩

end Script

end Recast
