import Recast.Placeholder
import Recast.Proofs.DecimalText

set_option autoImplicit false

/-!
# What the placeholder table holds

A token stands for one name only, so what is found for a token is what the event has for the name:
a field before a segment, a segment before a reserved value.
-/

namespace Recast

namespace Assoc

variable {α : Type}

theorem mem_of_get?_eq_some {entries : Assoc α} {key : String} {value : α}
    (found : get? entries key = some value) : (key, value) ∈ entries := by
  induction entries with
  | nil => cases found
  | cons entry rest ih =>
    obtain ⟨name, first⟩ := entry
    by_cases same : name = key
    · simp only [get?, same, if_true, Option.some.injEq] at found
      rw [same, found]
      exact List.mem_cons_self
    · simp only [get?, same, if_false] at found
      exact List.mem_cons_of_mem _ (ih found)

theorem get?_map_key {key : String → String}
    (injective : ∀ left right, key left = key right → left = right)
    (entries : Assoc α) (name : String) :
    get? (entries.map fun entry => (key entry.1, entry.2)) (key name) = get? entries name := by
  induction entries with
  | nil => rfl
  | cons entry rest ih =>
    obtain ⟨first, value⟩ := entry
    by_cases same : first = name
    · simp [get?, same]
    · have other : ¬ key first = key name := fun equal => same (injective _ _ equal)
      simp [get?, same, other, ih]

end Assoc

namespace Tag

theorem part?_forward (parts : List String) (position : Nat) :
    part? parts (Int.ofNat position) = parts[position]? := by
  have notNegative : ¬ (position : Int) < 0 := by omega
  simp only [part?, Int.ofNat_eq_natCast, notNegative, if_false, Int.toNat_natCast]
  by_cases inside : position < parts.length
  · simp [inside]
  · simp [inside]

theorem part?_backward (parts : List String) {position : Nat} (inside : position < parts.length) :
    part? parts (Int.ofNat position - Int.ofNat parts.length) = parts[position]? := by
  have negative : (position : Int) - parts.length < 0 := by omega
  have notNegative : ¬ (position : Int) < 0 := by omega
  have resolved : (parts.length : Int) + (position - parts.length) = position := by omega
  rw [← part?_forward]
  simp only [part?, Int.ofNat_eq_natCast, negative, if_true, resolved, notNegative, if_false]

theorem getElem?_indexedFrom (size start : Nat) (parts : List String) (position : Nat) :
    (indexedFrom size start parts)[position]? = parts[position]?.map fun part =>
      ⟨Int.ofNat (start + position), Int.ofNat (start + position) - Int.ofNat size, part⟩ := by
  induction parts generalizing start position with
  | nil => rfl
  | cons part rest ih =>
    cases position with
    | zero => rfl
    | succ position =>
      rw [indexedFrom, List.getElem?_cons_succ, List.getElem?_cons_succ, ih, Nat.add_assoc,
        Nat.add_comm 1]

theorem part?_of_mem_indexed {parts : List String} {segment : Indexed}
    (member : segment ∈ indexed parts) :
    part? parts segment.forward = some segment.part ∧
      part? parts segment.backward = some segment.part := by
  obtain ⟨position, found⟩ := List.mem_iff_getElem?.mp member
  rw [indexed, getElem?_indexedFrom, Nat.zero_add, Option.map_eq_some_iff] at found
  obtain ⟨part, found, rfl⟩ := found
  obtain ⟨inside, _⟩ := List.getElem?_eq_some_iff.mp found
  exact ⟨(part?_forward parts position).trans found, (part?_backward parts inside).trans found⟩

theorem exists_indexed_of_part? {parts : List String} {index : Int} {part : String}
    (found : part? parts index = some part) :
    ∃ segment ∈ indexed parts, segment.part = part ∧
      (segment.forward = index ∨ segment.backward = index) := by
  have entry := fun position => getElem?_indexedFrom parts.length 0 parts position
  have listed : ∀ position, parts[position]? = some part →
      (Int.ofNat position = index ∨ Int.ofNat position - Int.ofNat parts.length = index) →
      ∃ segment ∈ indexed parts, segment.part = part ∧
        (segment.forward = index ∨ segment.backward = index) := by
    intro position located either
    have member := entry position
    rw [located, Option.map_some, Nat.zero_add] at member
    exact ⟨_, List.mem_iff_getElem?.mpr ⟨position, member⟩, rfl, either⟩
  unfold part? at found
  by_cases negative : index < 0
  · simp only [negative, if_true] at found
    split at found
    next bounds =>
      rw [Bool.and_eq_true, decide_eq_true_eq, decide_eq_true_eq] at bounds
      refine listed _ found (Or.inr ?_)
      simp only [Int.ofNat_eq_natCast] at bounds ⊢
      omega
    next => cases found
  · simp only [negative, if_false] at found
    split at found
    next bounds =>
      rw [Bool.and_eq_true, decide_eq_true_eq, decide_eq_true_eq] at bounds
      refine listed _ found (Or.inl ?_)
      simp only [Int.ofNat_eq_natCast] at bounds ⊢
      omega
    next => cases found

theorem isSome_part?_iff (parts : List String) (index : Int) :
    (part? parts index).isSome ↔ -(parts.length : Int) ≤ index ∧ index < parts.length := by
  constructor
  · intro inside
    obtain ⟨part, found⟩ := Option.isSome_iff_exists.mp inside
    obtain ⟨segment, member, _, either⟩ := exists_indexed_of_part? found
    obtain ⟨position, located⟩ := List.mem_iff_getElem?.mp member
    rw [indexed, getElem?_indexedFrom, Nat.zero_add, Option.map_eq_some_iff] at located
    obtain ⟨part, located, rfl⟩ := located
    obtain ⟨bound, _⟩ := List.getElem?_eq_some_iff.mp located
    simp only [Int.ofNat_eq_natCast] at either
    omega
  · rintro ⟨below, above⟩
    by_cases negative : index < 0
    · obtain ⟨position, rfl⟩ : ∃ position : Nat,
          index = Int.ofNat position - Int.ofNat parts.length :=
        ⟨(index + parts.length).toNat, by simp only [Int.ofNat_eq_natCast]; omega⟩
      have inside : position < parts.length := by
        simp only [Int.ofNat_eq_natCast] at negative
        omega
      rw [part?_backward parts inside, List.getElem?_eq_getElem inside]
      rfl
    · obtain ⟨position, rfl⟩ : ∃ position : Nat, index = Int.ofNat position :=
        ⟨index.toNat, by simp only [Int.ofNat_eq_natCast]; omega⟩
      have inside : position < parts.length := by
        simp only [Int.ofNat_eq_natCast] at above
        omega
      rw [part?_forward, List.getElem?_eq_getElem inside]
      rfl

end Tag

namespace Placeholder

theorem token_injective (left right : String) (same : token left = token right) : left = right := by
  have letters := congrArg String.toList same
  simp only [token, String.toList_append, List.append_assoc, List.append_cancel_left_eq,
    List.append_cancel_right_eq] at letters
  exact String.toList_inj.mp letters

private theorem takeWhile_bracket {name : String} (unindexed : '[' ∉ name.toList)
    (rest : List Char) : (name.toList ++ '[' :: rest).takeWhile (· != '[') = name.toList := by
  have outside : ∀ char ∈ name.toList, (char != '[') = true := by
    intro char member
    rw [bne_iff_ne]
    rintro rfl
    exact unindexed member
  rw [List.takeWhile_append_of_pos outside]
  simp

theorem segmentName_injective {family other : String} {index position : Int}
    (unindexed : '[' ∉ family.toList) (otherUnindexed : '[' ∉ other.toList)
    (same : segmentName family index = segmentName other position) :
    family = other ∧ index = position := by
  have letters : family.toList ++ '[' :: (Decimal.intText index ++ [']']) =
      other.toList ++ '[' :: (Decimal.intText position ++ [']']) := by
    simpa [segmentName, String.toList_append] using congrArg String.toList same
  have families := congrArg (List.takeWhile (· != '[')) letters
  rw [takeWhile_bracket unindexed, takeWhile_bracket otherUnindexed] at families
  rw [families, List.append_cancel_left_eq, List.cons.injEq, List.append_cancel_right_eq] at letters
  exact ⟨String.toList_inj.mp families, Decimal.intText_injective letters.2⟩

theorem unindexed_of_mem_families {family : String} (known : family ∈ families) :
    '[' ∉ family.toList := by
  revert family
  decide

/-- The entries of segments pair the name of an index with the segment at that index. -/
theorem mem_allSegmentEntries {parts : List String} {key : String} {value : Json.Value}
    (member : (key, value) ∈ allSegmentEntries (Tag.indexed parts)) :
    ∃ family ∈ families, ∃ index part, key = token (segmentName family index) ∧
      value = .text part ∧ Tag.part? parts index = some part := by
  obtain ⟨family, known, listed⟩ := List.mem_flatMap.mp member
  obtain ⟨segment, found, entry⟩ := List.mem_flatMap.mp listed
  obtain ⟨forward, backward⟩ := Tag.part?_of_mem_indexed found
  simp only [segmentEntries, List.mem_cons, Prod.mk.injEq, List.not_mem_nil, or_false] at entry
  rcases entry with ⟨rfl, rfl⟩ | ⟨rfl, rfl⟩
  · exact ⟨family, known, _, _, rfl, rfl, backward⟩
  · exact ⟨family, known, _, _, rfl, rfl, forward⟩

theorem get?_allSegmentEntries {parts : List String} {family : String} (known : family ∈ families)
    (index : Int) :
    Assoc.get? (allSegmentEntries (Tag.indexed parts)).reverse (token (segmentName family index)) =
      (Tag.part? parts index).map .text := by
  cases found : Assoc.get? (allSegmentEntries (Tag.indexed parts)).reverse
      (token (segmentName family index)) with
  | some value =>
    have member := List.mem_reverse.mp (Assoc.mem_of_get?_eq_some found)
    obtain ⟨other, otherKnown, position, part, same, rfl, located⟩ := mem_allSegmentEntries member
    obtain ⟨_, rfl⟩ := segmentName_injective (unindexed_of_mem_families known)
      (unindexed_of_mem_families otherKnown) (token_injective _ _ same)
    rw [located, Option.map_some]
  | none =>
    cases located : Tag.part? parts index with
    | none => rfl
    | some part =>
      obtain ⟨segment, member, _, either⟩ := Tag.exists_indexed_of_part? located
      have entry : ∃ value,
          (token (segmentName family index), value) ∈ segmentEntries family segment := by
        refine ⟨.text segment.part, ?_⟩
        rw [segmentEntries]
        rcases either with rfl | rfl
        · exact List.mem_cons_of_mem _ List.mem_cons_self
        · exact List.mem_cons_self
      obtain ⟨value, entry⟩ := entry
      have listed : (token (segmentName family index), value) ∈
          allSegmentEntries (Tag.indexed parts) :=
        List.mem_flatMap.mpr ⟨family, known, List.mem_flatMap.mpr ⟨segment, member, entry⟩⟩
      rw [Assoc.get?_eq_none_iff] at found
      exact absurd (List.mem_map_of_mem (List.mem_reverse.mpr listed)) found

theorem get?_allSegmentEntries_unindexed (parts : List String) {name : String}
    (unindexed : '[' ∉ name.toList) :
    Assoc.get? (allSegmentEntries (Tag.indexed parts)).reverse (token name) = none := by
  rw [Assoc.get?_eq_none_iff]
  intro member
  obtain ⟨⟨key, value⟩, listed, same⟩ := List.mem_map.mp member
  obtain ⟨family, _, index, part, written, _⟩ :=
    mem_allSegmentEntries (List.mem_reverse.mp listed)
  obtain rfl : name = segmentName family index := token_injective _ _ (same.symm.trans written)
  exact unindexed (by simp [segmentName, String.toList_append])

/-- The reserved values of an event by their names. -/
def reserved (event : Event) (hostname : String) : Assoc Json.Value :=
  [("time", .int event.time), ("tag", .text event.tag), ("hostname", .text hostname)]

theorem legacy_ne_token {legacy : String × String} (known : legacy ∈ legacyTokens)
    (name : String) : legacy.1 ≠ token name := by
  intro same
  have first : ∀ legacy ∈ legacyTokens, legacy.1.toList.head? = some '_' := by decide
  have letters := first legacy known
  rw [same] at letters
  simp [token, String.toList_append] at letters

theorem get?_addLegacy_any (table : Table) (legacy : String × String) (key : String) :
    Assoc.get? (addLegacy table legacy) key =
      if legacy.1 = key then (Assoc.get? table legacy.2).or (Assoc.get? table key)
      else Assoc.get? table key := by
  unfold addLegacy
  cases found : Assoc.get? table legacy.2 with
  | some value =>
    dsimp only
    rw [Assoc.get?_insert]
    split <;> rfl
  | none => simp

theorem get?_addLegacy (table : Table) {legacy : String × String} (known : legacy ∈ legacyTokens)
    (name : String) :
    Assoc.get? (addLegacy table legacy) (token name) = Assoc.get? table (token name) := by
  rw [get?_addLegacy_any, if_neg (legacy_ne_token known name)]

theorem get?_foldl_addLegacy_of_ne (table : Table) {listed : List (String × String)} {key : String}
    (others : ∀ legacy ∈ listed, legacy.1 ≠ key) :
    Assoc.get? (listed.foldl addLegacy table) key = Assoc.get? table key := by
  induction listed generalizing table with
  | nil => rfl
  | cons first rest ih =>
    obtain ⟨other, others⟩ := List.forall_mem_cons.mp others
    rw [List.foldl_cons, ih _ others, get?_addLegacy_any, if_neg other]

/-- A token stands for a field, else for a segment, else for a reserved value. -/
theorem Table.get?_build (event : Event) (hostname name : String) :
    Assoc.get? (build event hostname) (token name) =
      (Assoc.get? event.record.reverse name).or
        ((Assoc.get? (allSegmentEntries (Tag.indexed (Tag.parts event.tag))).reverse
            (token name)).or
          (Assoc.get? (reserved event hostname) name)) := by
  have fields := Assoc.get?_map_key token_injective event.record.reverse name
  have others := Assoc.get?_map_key token_injective (reserved event hostname) name
  rw [List.map_reverse] at fields
  rw [build, get?_foldl_addLegacy_of_ne _ fun _ known => legacy_ne_token known name,
    Assoc.get?_insertAll, Assoc.get?_insertAll, fields]
  congr 2

end Placeholder

end Recast
