import Recast.Script.Value

set_option autoImplicit false

/-!
# JSON values in scripts

A script sorts the entries of every object by key. Otherwise a JSON value comes back from a script
as it was, if its numbers are ones that scripts have.
-/

namespace Recast

namespace Json

def keyBefore {α : Type} (left right : String × α) : Bool :=
  decide (left.1 ≤ right.1)

mutual

/-- The value with the entries of every object in the order of their keys. -/
def Value.sorted : Value → Value
  | .null => .null
  | .bool flag => .bool flag
  | .int number => .int number
  | .float number => .float number
  | .text content => .text content
  | .array items => .array (sortedItems items)
  | .object entries => .object ((sortedEntries entries).mergeSort keyBefore)

def sortedItems : List Value → List Value
  | [] => []
  | item :: rest => item.sorted :: sortedItems rest

def sortedEntries : List (String × Value) → List (String × Value)
  | [] => []
  | (key, value) :: rest => (key, value.sorted) :: sortedEntries rest

end

mutual

/-- A value that scripts hold as it is: its integers have 64 bits, its doubles are finite, and the
keys of each object are distinct. -/
def Value.IsPortable : Value → Prop
  | .int number => Script.isInt number = true
  | .float number => number.isFinite = true
  | .array items => ItemsPortable items
  | .object entries => (entries.map Prod.fst).Nodup ∧ EntriesPortable entries
  | _ => True

def ItemsPortable : List Value → Prop
  | [] => True
  | item :: rest => item.IsPortable ∧ ItemsPortable rest

def EntriesPortable : List (String × Value) → Prop
  | [] => True
  | (_, value) :: rest => value.IsPortable ∧ EntriesPortable rest

end

def Value.isFloat : Value → Bool
  | .float _ => true
  | _ => false

theorem keys_sortedEntries (entries : List (String × Value)) :
    (sortedEntries entries).map Prod.fst = entries.map Prod.fst := by
  induction entries with
  | nil => rfl
  | cons entry rest ih => rw [sortedEntries, List.map_cons, List.map_cons, ih]

end Json

namespace Script

variable {α : Type}

/-! ## Sorted maps -/

private theorem lt_of_not_before {key name : String} (other : key ≠ name)
    (after : textBefore key name = false) : name < key := by
  rw [textBefore, decide_eq_false_iff_not, String.not_lt] at after
  rw [← String.not_le]
  intro before
  exact other (String.le_antisymm before after)

theorem perm_insertSorted {key : String} (value : α) {entries : List (String × α)}
    (fresh : key ∉ entries.map Prod.fst) :
    (insertSorted key value entries).Perm ((key, value) :: entries) := by
  induction entries with
  | nil => exact .refl _
  | cons entry rest ih =>
    obtain ⟨name, old⟩ := entry
    rw [List.map_cons, List.mem_cons, not_or] at fresh
    rw [insertSorted, if_neg fresh.1]
    split
    · exact .refl _
    · exact ((ih fresh.2).cons _).trans (.swap _ _ _)

theorem mem_insertSorted {key : String} {value : α} {entries : List (String × α)}
    {entry : String × α} (member : entry ∈ insertSorted key value entries) :
    entry = (key, value) ∨ entry ∈ entries := by
  induction entries with
  | nil => exact Or.inl (List.mem_singleton.mp member)
  | cons first rest ih =>
    obtain ⟨name, old⟩ := first
    rw [insertSorted] at member
    split at member
    next => exact (List.mem_cons.mp member).imp_right (List.mem_cons_of_mem _)
    next =>
      split at member
      next => exact List.mem_cons.mp member
      next =>
        rcases List.mem_cons.mp member with rfl | later
        · exact Or.inr List.mem_cons_self
        · exact (ih later).imp_right (List.mem_cons_of_mem _)

theorem pairwise_insertSorted (key : String) (value : α) {entries : List (String × α)}
    (sorted : entries.Pairwise fun left right => left.1 < right.1) :
    (insertSorted key value entries).Pairwise fun left right => left.1 < right.1 := by
  induction entries with
  | nil => exact List.pairwise_singleton _ _
  | cons entry rest ih =>
    obtain ⟨name, old⟩ := entry
    obtain ⟨first, others⟩ := List.pairwise_cons.mp sorted
    rw [insertSorted]
    split
    next same =>
      rw [same]
      exact List.pairwise_cons.mpr ⟨first, others⟩
    next other =>
      split
      next before =>
        have less : key < name := of_decide_eq_true before
        refine List.pairwise_cons.mpr ⟨?_, sorted⟩
        intro entry member
        rcases List.mem_cons.mp member with rfl | member
        · exact less
        · exact String.lt_trans less (first entry member)
      next after =>
        refine List.pairwise_cons.mpr ⟨?_, ih others⟩
        intro entry member
        rcases mem_insertSorted member with rfl | member
        · exact lt_of_not_before other (Bool.not_eq_true _ ▸ after)
        · exact first entry member

/-- Entries put in order one by one are in the strict order of their keys. -/
theorem pairwise_sortedMap (entries : List (String × α)) :
    (sortedMap entries).Pairwise fun left right => left.1 < right.1 := by
  have run : ∀ (rest sorted : List (String × α)),
      (sorted.Pairwise fun left right => left.1 < right.1) →
      (rest.foldl (fun sorted entry => insertSorted entry.1 entry.2 sorted) sorted).Pairwise
        fun left right => left.1 < right.1 := by
    intro rest
    induction rest with
    | nil => intro sorted ordered; exact ordered
    | cons entry rest ih =>
      intro sorted ordered
      exact ih _ (pairwise_insertSorted entry.1 entry.2 ordered)
  exact run entries [] .nil

theorem nodup_keys_sortedMap (entries : List (String × α)) :
    ((sortedMap entries).map Prod.fst).Nodup := by
  rw [List.Nodup, List.pairwise_map]
  exact (pairwise_sortedMap entries).imp fun before => String.ne_of_lt before

theorem mem_sortedMap {entries : List (String × α)} {entry : String × α}
    (member : entry ∈ sortedMap entries) : entry ∈ entries := by
  have run : ∀ (rest sorted : List (String × α)),
      entry ∈ rest.foldl (fun sorted entry => insertSorted entry.1 entry.2 sorted) sorted →
      entry ∈ sorted ∨ entry ∈ rest := by
    intro rest
    induction rest with
    | nil => intro sorted member; exact Or.inl member
    | cons next rest ih =>
      intro sorted member
      rcases ih _ member with inserted | later
      · rcases mem_insertSorted inserted with rfl | kept
        · exact Or.inr List.mem_cons_self
        · exact Or.inl kept
      · exact Or.inr (List.mem_cons_of_mem _ later)
  rcases run entries [] member with none | found
  · cases none
  · exact found

/-- Entries of distinct keys are all kept. -/
theorem perm_sortedMap {entries : List (String × α)} (distinct : (entries.map Prod.fst).Nodup) :
    (sortedMap entries).Perm entries := by
  have run : ∀ (rest sorted : List (String × α)), ((sorted ++ rest).map Prod.fst).Nodup →
      (rest.foldl (fun sorted entry => insertSorted entry.1 entry.2 sorted) sorted).Perm
        (sorted ++ rest) := by
    intro rest
    induction rest with
    | nil => intro sorted _; rw [List.append_nil]; exact .refl _
    | cons entry rest ih =>
      intro sorted distinct
      have fresh : entry.1 ∉ sorted.map Prod.fst := by
        intro member
        rw [List.map_append, List.nodup_append] at distinct
        exact distinct.2.2 entry.1 member entry.1 List.mem_cons_self rfl
      have moved : (insertSorted entry.1 entry.2 sorted ++ rest).Perm (sorted ++ entry :: rest) :=
        ((perm_insertSorted entry.2 fresh).append_right rest).trans List.perm_middle.symm
      exact (ih _ ((moved.map Prod.fst).nodup_iff.mpr distinct)).trans moved
  exact run entries [] distinct

/-- Putting entries in order one by one sorts them. -/
theorem sortedMap_eq_mergeSort {entries : List (String × α)}
    (distinct : (entries.map Prod.fst).Nodup) :
    sortedMap entries = entries.mergeSort Json.keyBefore := by
  have ordered := pairwise_sortedMap entries
  have total : ∀ left right : String × α,
      (Json.keyBefore left right || Json.keyBefore right left) = true := by
    intro left right
    rw [Bool.or_eq_true, Json.keyBefore, Json.keyBefore, decide_eq_true_eq, decide_eq_true_eq]
    exact String.le_total _ _
  have transitive : ∀ first second third : String × α, Json.keyBefore first second = true →
      Json.keyBefore second third = true → Json.keyBefore first third = true := by
    intro first second third
    simp only [Json.keyBefore, decide_eq_true_eq]
    exact String.le_trans
  have perm := List.mergeSort_perm entries Json.keyBefore
  have weak := List.pairwise_mergeSort transitive total entries
  -- Keys are distinct, so that the order of the sorted entries is strict.
  have apart : (entries.mergeSort Json.keyBefore).Pairwise fun left right => left.1 ≠ right.1 :=
    List.pairwise_map.mp ((perm.map Prod.fst).nodup_iff.mpr distinct)
  have strict : (entries.mergeSort Json.keyBefore).Pairwise fun left right => left.1 < right.1 := by
    refine (weak.and apart).imp ?_
    rintro left right ⟨before, other⟩
    rw [Json.keyBefore, decide_eq_true_eq] at before
    rw [← String.not_le]
    exact fun after => other (String.le_antisymm before after)
  refine List.Perm.eq_of_pairwise ?_ ordered strict ((perm_sortedMap distinct).trans perm.symm)
  intro left right _ _ before after
  exact absurd after (String.lt_asymm before)

/-! ## There and back -/

theorem toJsonEntries?_insertSorted {key : String} {value : Value} {json : Json.Value}
    {entries : List (String × Value)} {others : List (String × Json.Value)}
    (first : value.toJson? = some json) (rest : toJsonEntries? entries = some others) :
    toJsonEntries? (insertSorted key value entries) = some (insertSorted key json others) := by
  induction entries generalizing others with
  | nil =>
    cases rest
    simp [insertSorted, toJsonEntries?, first]
  | cons entry entries ih =>
    obtain ⟨name, old⟩ := entry
    rw [toJsonEntries?] at rest
    split at rest
    next oldJson tail oldKnown tailKnown =>
      cases rest
      rw [insertSorted, insertSorted]
      split
      next => simp [toJsonEntries?, first, tailKnown]
      next =>
        split
        · simp [toJsonEntries?, first, oldKnown, tailKnown]
        · simp [toJsonEntries?, oldKnown, ih tailKnown]
    next => cases rest

theorem toJsonEntries?_sortedMap {entries : List (String × Value)}
    {others : List (String × Json.Value)} (known : toJsonEntries? entries = some others) :
    toJsonEntries? (sortedMap entries) = some (sortedMap others) := by
  have run : ∀ (entries sorted : List (String × Value)) (others jsons : List (String × Json.Value)),
      toJsonEntries? entries = some others → toJsonEntries? sorted = some jsons →
      toJsonEntries?
          (entries.foldl (fun sorted entry => insertSorted entry.1 entry.2 sorted) sorted) =
        some (others.foldl (fun sorted entry => insertSorted entry.1 entry.2 sorted) jsons) := by
    intro entries
    induction entries with
    | nil =>
      intro sorted others jsons known start
      cases known
      exact start
    | cons entry entries ih =>
      intro sorted others jsons known start
      obtain ⟨key, value⟩ := entry
      rw [toJsonEntries?] at known
      split at known
      next json rest first tail =>
        cases known
        exact ih _ rest _ tail (toJsonEntries?_insertSorted first start)
      next => cases known
  exact run entries [] others [] known rfl

mutual

/-- A portable value comes back from a script with its entries in order. -/
theorem toJson?_ofJson : ∀ value : Json.Value, value.IsPortable →
    (Value.ofJson value).toJson? = some value.sorted
  | .null, _ => rfl
  | .bool _, _ => rfl
  | .int number, portable => by
    have fits : isInt number = true := portable
    simp [Value.ofJson, fits, Value.toJson?, Json.Value.sorted]
  | .float number, portable => by
    have finite : number.isFinite = true := portable
    simp [Value.ofJson, finite, Value.toJson?, Json.Value.sorted]
  | .text _, _ => rfl
  | .array items, portable => by
    have known := toJsonItems?_ofJsonItems items portable
    simp [Value.ofJson, Value.toJson?, known, Json.Value.sorted]
  | .object entries, portable => by
    have known := toJsonEntries?_ofJsonEntries entries portable.2
    have distinct : ((Json.sortedEntries entries).map Prod.fst).Nodup := by
      rw [Json.keys_sortedEntries]
      exact portable.1
    simp [Value.ofJson, Value.toJson?, toJsonEntries?_sortedMap known,
      sortedMap_eq_mergeSort distinct, Json.Value.sorted]

theorem toJsonItems?_ofJsonItems : ∀ items : List Json.Value, Json.ItemsPortable items →
    toJsonItems? (ofJsonItems items) = some (Json.sortedItems items)
  | [], _ => rfl
  | item :: rest, portable => by
    have first := toJson?_ofJson item portable.1
    have others := toJsonItems?_ofJsonItems rest portable.2
    simp [ofJsonItems, toJsonItems?, first, others, Json.sortedItems]

theorem toJsonEntries?_ofJsonEntries : ∀ entries : List (String × Json.Value),
    Json.EntriesPortable entries →
      toJsonEntries? (ofJsonEntries entries) = some (Json.sortedEntries entries)
  | [], _ => rfl
  | (_, value) :: rest, portable => by
    have first := toJson?_ofJson value portable.1
    have others := toJsonEntries?_ofJsonEntries rest portable.2
    simp [ofJsonEntries, toJsonEntries?, first, others, Json.sortedEntries]

end

theorem toJson_ofJson {value : Json.Value} (portable : value.IsPortable) :
    (Value.ofJson value).toJson = value.sorted := by
  rw [Value.toJson, toJson?_ofJson value portable]

/-- Inside a text a value is written as its JSON is, unless it is a double. -/
theorem printed_ofJson {value : Json.Value} (portable : value.IsPortable)
    (exact : value.isFloat = false) : (Value.ofJson value).printed = value.sorted.asText := by
  have back := toJson_ofJson portable
  cases value with
  | null => rfl
  | bool flag => cases flag <;> rfl
  | int number =>
    have fits : isInt number = true := portable
    simp only [Value.ofJson, fits, if_true, Value.printed]
    rfl
  | float number => cases exact
  | text content => rfl
  | array items => rw [← back]; rfl
  | object entries => rw [← back]; rfl

end Script

end Recast
