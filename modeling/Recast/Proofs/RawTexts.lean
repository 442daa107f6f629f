import Recast.Proofs.BackTicks

set_option autoImplicit false

/-!
# Raw texts

A raw text ends at the first quote with as many number signs behind it as stand before it. It is
read alike whatever follows it.
-/

namespace Recast.Script

theorem afterStart?_append {part text : List Char} (fits : part.length ≤ text.length)
    (other : List Char) : Text.afterStart? part (text ++ other) =
      (Text.afterStart? part text).map (· ++ other) := by
  induction part generalizing text with
  | nil => rfl
  | cons expected part ih =>
    cases text with
    | nil => cases fits
    | cons char text =>
      rw [List.cons_append, Text.afterStart?, Text.afterStart?, ih (Nat.le_of_succ_le_succ fits)]
      split
      next => rfl
      next => rfl

theorem eq_append_of_afterStart? {sign input rest : List Char}
    (found : Text.afterStart? sign input = some rest) : input = sign ++ rest := by
  fun_induction Text.afterStart? sign input
  case case1 => cases found; rfl
  case case2 => cases found
  case case3 expected sign text ih => rw [List.cons_append, ← ih found]
  case case4 => cases found

theorem afterStart?_self (part other : List Char) :
    Text.afterStart? part (part ++ other) = some other := by
  induction part with
  | nil => rfl
  | cons char part ih => rw [List.cons_append, Text.afterStart?, if_pos rfl, ih]

/-- What stands before the closing of a raw text does not depend on what stands behind it. -/
theorem lexRawEnd_eq {closing input content left : List Char} (filled : closing ≠ [])
    (read : lexRawEnd closing input = some (content, left)) :
    input = content ++ (closing ++ left) ∧
      ∀ other, lexRawEnd closing (content ++ (closing ++ other)) = some (content, other) := by
  induction input generalizing content with
  | nil => cases read
  | cons char rest ih =>
    rw [lexRawEnd] at read
    split at read
    next found =>
      cases read
      have whole := eq_append_of_afterStart? found
      refine ⟨whole, fun other => ?_⟩
      obtain ⟨first, closing, rfl⟩ := List.exists_cons_of_ne_nil filled
      have same := afterStart?_self (first :: closing) other
      rw [List.cons_append] at same
      rw [List.nil_append, List.cons_append, lexRawEnd, same]
    next noEnd =>
      obtain ⟨⟨inner, after⟩, later, same⟩ := Option.map_eq_some_iff.mp read
      cases same
      obtain ⟨rfl, others⟩ := ih later
      refine ⟨rfl, fun other => ?_⟩
      have fits : closing.length ≤ (char :: (inner ++ closing)).length := by
        rw [List.length_cons, List.length_append]
        omega
      have none : ∀ other, Text.afterStart? closing (char :: (inner ++ (closing ++ other))) =
          (Text.afterStart? closing (char :: (inner ++ closing))).map (· ++ other) := by
        intro other
        rw [← afterStart?_append fits, List.cons_append, List.append_assoc]
      rw [none, Option.map_eq_none_iff] at noEnd
      rw [List.cons_append, lexRawEnd, none, noEnd, others other]
      rfl

/-- A raw text with its signs and quotes, but for its first sign. -/
structure RawChunk (signs content chunk : List Char) : Prop where
  onlySigns : ∀ char ∈ signs, char = '#'
  whole : chunk = signs ++ '"' :: (content ++ '"' :: '#' :: signs)
  reads : ∀ other, rawText? (chunk ++ other) = some (content, other)

theorem exists_rawChunk {input content left : List Char}
    (read : rawText? input = some (content, left)) :
    ∃ signs chunk, input = chunk ++ left ∧ RawChunk signs content chunk := by
  unfold rawText? at read
  dsimp only at read
  have cut : input.takeWhile (· == '#') ++ input.drop (input.takeWhile (· == '#')).length =
      input := by
    have left : (input.takeWhile (· == '#') ++ input.dropWhile (· == '#')).drop
        (input.takeWhile (· == '#')).length = input.dropWhile (· == '#') := List.drop_left
    rw [List.takeWhile_append_dropWhile] at left
    rw [left, List.takeWhile_append_dropWhile]
  have signs : ∀ char ∈ input.takeWhile (· == '#'), char = '#' := fun char member =>
    beq_iff_eq.mp (List.all_eq_true.mp List.all_takeWhile char member)
  generalize input.takeWhile (· == '#') = more at read cut signs
  split at read
  next rest quote =>
    obtain ⟨rfl, others⟩ := lexRawEnd_eq (List.cons_ne_nil _ _) read
    rw [quote] at cut
    refine ⟨more, more ++ '"' :: (content ++ '"' :: '#' :: more), ?_, signs, rfl, fun other => ?_⟩
    · rw [← cut]
      simp
    · have taken : (more ++ '"' :: (content ++ '"' :: '#' :: more) ++ other).takeWhile
          (· == '#') = more := by
        rw [List.append_assoc, List.takeWhile_append_of_pos fun char member =>
          beq_iff_eq.mpr (signs char member)]
        simp
      have whole := others other
      rw [List.cons_append, List.cons_append] at whole
      unfold rawText?
      dsimp only
      rw [taken, List.append_assoc, List.drop_left]
      simp [whole]
  next => cases read

end Recast.Script
