import Mathlib
import Recast.Proofs.Separators
import Recast.Proofs.TokenTable

set_option autoImplicit false

/-!
# Segments of a tag

The segments of a tag are the one way to write it as texts without dots that are joined with dots.
Each has two indices, one from either end, and no other index has a segment. Indices of 64 bits
suffice: no sum that they take part in leaves that width.
-/

namespace Recast.Tag

theorem toList_intercalate_dot (segments : List String) :
    (String.intercalate "." segments).toList =
      List.intercalate ['.'] (segments.map String.toList) := by
  rw [String.toList_intercalate]
  rfl

theorem map_toList_parts (tag : String) :
    (parts tag).map String.toList = Text.splitAt '.' tag.toList := by
  rw [parts, List.map_map]
  exact List.map_id'' (fun _ => String.toList_ofList) _

theorem eq_parts_iff {segments : List String} {tag : String} :
    segments = parts tag ↔
      segments ≠ [] ∧ (∀ segment ∈ segments, '.' ∉ segment.toList) ∧
        String.intercalate "." segments = tag := by
  have texts : segments = parts tag ↔
      segments.map String.toList = Text.splitAt '.' tag.toList := by
    rw [← map_toList_parts, List.map_inj_right fun _ _ => String.toList_injective]
  rw [texts, Text.eq_splitAt_iff, ← toList_intercalate_dot, String.toList_inj]
  simp

theorem length_parts (tag : String) : (parts tag).length = tag.toList.count '.' + 1 := by
  rw [parts, List.length_map, Text.length_splitAt]

/-! ## Indices -/

section Indices

variable (segments : List String)

theorem indexed_eq :
    indexed segments =
      segments.mapIdx fun position segment => ⟨position, position - segments.length, segment⟩ := by
  apply List.ext_getElem?
  intro position
  rw [indexed, getElem?_indexedFrom, Nat.zero_add, List.getElem?_mapIdx]
  rfl

theorem part?_position (position : Fin segments.length) :
    part? segments position = some segments[position] ∧
      part? segments (position - segments.length) = some segments[position] :=
  ⟨(part?_forward segments position).trans (List.getElem?_eq_getElem position.isLt),
    (part?_backward segments position.isLt).trans (List.getElem?_eq_getElem position.isLt)⟩

/-! ## Indices of 64 bits -/

/-- The position that an index stands for, where a sum of 64 bits may wrap around. -/
def wordPosition (count : Nat) (index : Int64) : Int64 :=
  if index < 0 then Int64.ofNat count + index else index

/-- A segment by an index of 64 bits, with every number of that width. -/
def wordPart? (index : Int64) : Option String :=
  let resolved := wordPosition segments.length index
  if 0 ≤ resolved && resolved < Int64.ofNat segments.length then
    segments[resolved.toNatClampNeg]?
  else none

/-- A negative index and a count never wrap around. -/
theorem toInt_wordPosition {count : Nat} (fits : count < 2 ^ 63) (index : Int64) :
    (wordPosition count index).toInt =
      if index.toInt < 0 then count + index.toInt else index.toInt := by
  have least := index.le_toInt
  have largest := index.toInt_lt
  have length := Int64.toInt_ofNat_of_lt fits
  unfold wordPosition
  by_cases negative : index < 0
  · have negative' : index.toInt < 0 := Int64.lt_iff_toInt_lt.mp negative
    rw [if_pos negative, if_pos negative', Int64.toInt_add, length]
    exact Int.bmod_eq_of_le (by omega) (by omega)
  · have notNegative : ¬ index.toInt < 0 := fun below => negative (Int64.lt_iff_toInt_lt.mpr below)
    rw [if_neg negative, if_neg notNegative]

theorem wordPart?_eq (fits : segments.length < 2 ^ 63) (index : Int64) :
    wordPart? segments index = part? segments index.toInt := by
  have resolved := toInt_wordPosition fits index
  have length := Int64.toInt_ofNat_of_lt fits
  simp only [wordPart?, part?, Int64.le_iff_toInt_le, Int64.lt_iff_toInt_lt, Int64.toNatClampNeg,
    Int64.toInt_zero, resolved, length, Int.ofNat_eq_natCast]

end Indices

/-- The segments of a tag are the only texts without dots that make it when they are joined, and
there is one more of them than there are dots. Each has the indices of its place from both ends, the
list of segments gives these, and no other index has a segment. With numbers of 64 bits, which count
every list that fits into memory, each index gives the same and no sum leaves that width. -/
theorem segments_and_indices (tag : String) :
    (∀ others : List String, others = parts tag ↔
      others ≠ [] ∧ (∀ segment ∈ others, '.' ∉ segment.toList) ∧
        String.intercalate "." others = tag) ∧
    (parts tag).length = tag.toList.count '.' + 1 ∧
    let segments := parts tag
    let count : Int := segments.length
    (∀ index, (part? segments index).isSome = true ↔ -count ≤ index ∧ index < count) ∧
    (∀ position : Fin segments.length, part? segments position = some segments[position] ∧
      part? segments (position - count) = some segments[position]) ∧
    indexed segments =
      segments.mapIdx (fun position segment => ⟨position, position - count, segment⟩) ∧
    (segments.length < 2 ^ 63 → ∀ index : Int64,
      wordPart? segments index = part? segments index.toInt ∧
        (wordPosition segments.length index).toInt =
          if index.toInt < 0 then count + index.toInt else index.toInt) :=
  ⟨fun _ => eq_parts_iff, length_parts tag, isSome_part?_iff _, part?_position _, indexed_eq _,
    fun fits index => ⟨wordPart?_eq _ fits index, toInt_wordPosition fits index⟩⟩

/-- Empty segments count, and the least and the largest index of 64 bits have none. -/
theorem segments_and_indices_extreme :
    let segments := parts "a..b."
    segments.length < 2 ^ 63 ∧ segments = ["a", "", "b", ""] ∧
      wordPart? segments (-3) = some "" ∧ wordPart? segments Int64.minValue = none ∧
      wordPart? segments Int64.maxValue = none := by
  intro segments
  have named : parts "a..b." = ["a", "", "b", ""] := by decide +kernel
  have fits : (parts "a..b.").length < 2 ^ 63 := by rw [named]; decide
  have word := (segments_and_indices "a..b.").2.2.2.2.2 fits
  refine ⟨fits, named, ?_, ?_, ?_⟩
  · rw [(word (-3)).1, named]
    decide
  · rw [(word Int64.minValue).1, named]
    decide
  · rw [(word Int64.maxValue).1, named]
    decide

end Recast.Tag
