import Mathlib.Data.List.Forall2
import Recast.Proofs.Utf8
import Recast.Stream.Run

set_option autoImplicit false

/-!
# The lines of an input

The bytes of a text are cut into the bytes of its lines. A carriage return before a line break is
cut off as well, which decoding a line cannot tell.
-/

namespace Recast.Stream

/-- The lines of a text: each ends at a line break or, unless it is empty, at the end. -/
def textLines (text : List Char) : List (List Char) :=
  let fields := Text.splitAt '\n' text
  if fields.getLastD [] = [] then fields.dropLast else fields

theorem splitFrom_append {line chunk : List UInt8} (unbroken : lineBreak ∉ chunk)
    (rest : List UInt8) :
    splitFrom line (chunk ++ rest) = splitFrom (chunk.reverse ++ line) rest := by
  induction chunk generalizing line with
  | nil => rfl
  | cons byte chunk ih =>
    rw [List.mem_cons, not_or] at unbroken
    obtain ⟨other, others⟩ := unbroken
    have step : splitFrom line (byte :: (chunk ++ rest)) =
        splitFrom (byte :: line) (chunk ++ rest) := by
      rw [splitFrom, if_neg (Ne.symm other)]
    rw [List.cons_append, step, ih others, List.reverse_cons, List.append_assoc]
    rfl

private theorem lineBreak_notMem_encodeChar {char : Char} (other : char ≠ '\n') :
    lineBreak ∉ Text.encodeChar char := by
  rw [Text.mem_encodeChar_ascii (by decide)]
  intro same
  exact other (Char.toNat_inj.mp same)

/-- Cutting the bytes of a text gives the bytes of its fields, up to carriage returns. -/
theorem splitFrom_encodeUtf8 (line : List UInt8) (text field : List Char)
    (fields : List (List Char)) (split : Text.splitAt '\n' text = field :: fields) :
    let all := (line.reverse ++ Text.encodeUtf8 field) :: fields.map Text.encodeUtf8
    splitFrom line (Text.encodeUtf8 text) = (all.dropLast.map dropReturn, all.getLastD []) := by
  dsimp only
  induction text generalizing line field fields with
  | nil =>
    cases split
    simp [splitFrom, Text.encodeUtf8]
  | cons char rest ih =>
    by_cases breaks : char = '\n'
    · subst breaks
      have step : splitFrom line (Text.encodeUtf8 ('\n' :: rest)) =
          (dropReturn line.reverse :: (splitFrom [] (Text.encodeUtf8 rest)).1,
            (splitFrom [] (Text.encodeUtf8 rest)).2) := rfl
      cases found : Text.splitAt '\n' rest with
      | nil => exact absurd found (Text.splitAt_ne_nil _ _)
      | cons next others =>
        simp only [Text.splitAt, if_true, found, List.cons.injEq] at split
        obtain ⟨rfl, rfl⟩ := split
        rw [step, ih [] next others found]
        simp [Text.encodeUtf8]
    · obtain ⟨next, others, found, step⟩ := Text.splitAt_cons_of_ne breaks rest
      rw [step, List.cons.injEq] at split
      obtain ⟨rfl, rfl⟩ := split
      rw [Text.encodeUtf8_cons, splitFrom_append (lineBreak_notMem_encodeChar breaks),
        ih _ next others found]
      simp [Text.encodeUtf8_cons]

/-- The bytes of a line of an input: they are text and decode as the line does. -/
def Reads (bytes : List UInt8) (line : List Char) : Prop :=
  ∃ read, Text.decodeUtf8? bytes = some read ∧ decodeLine read = decodeLine line

theorem reads_encodeUtf8 (line : List Char) : Reads (Text.encodeUtf8 line) line :=
  ⟨line, Text.decodeUtf8?_encodeUtf8 line, rfl⟩

private theorem trim_concat_blank {char : Char} (blank : Text.isBlank char = true)
    (text : List Char) : Text.trim (text ++ [char]) = Text.trim text := by
  unfold Text.trim Text.trimLeft Text.trimRight
  rw [List.dropWhile_append]
  cases found : text.dropWhile Text.isBlank with
  | nil => simp [blank]
  | cons first rest => simp [blank]

private theorem decodeLine_concat_return (line : List Char) :
    decodeLine (line ++ ['\r']) = decodeLine line := by
  simp only [decodeLine, trim_concat_blank (show Text.isBlank '\r' = true by decide)]

theorem reads_dropReturn (line : List Char) :
    Reads (dropReturn (Text.encodeUtf8 line)) line := by
  unfold dropReturn
  split
  next last =>
    rcases List.eq_nil_or_concat line with rfl | ⟨front, char, rfl⟩
    · cases last
    · rw [List.concat_eq_append, Text.encodeUtf8_append] at last ⊢
      have single : Text.encodeUtf8 [char] = Text.encodeChar char := List.append_nil _
      rw [single, List.getLast?_append_of_ne_nil _ (Text.encodeChar_ne_nil char)] at last
      -- The last byte is a carriage return, and no other character has it among its bytes.
      have code := (Text.mem_encodeChar_ascii (by decide)).mp (List.mem_of_getLast? last)
      obtain rfl : char = '\r' := Char.toNat_inj.mp code
      refine ⟨front, ?_, (decodeLine_concat_return front).symm⟩
      have cut : (Text.encodeUtf8 front ++ Text.encodeUtf8 ['\r']).dropLast =
          Text.encodeUtf8 front := List.dropLast_concat
      rw [cut, Text.decodeUtf8?_encodeUtf8]
  next => exact reads_encodeUtf8 line

private theorem reads_map_dropReturn (lines : List (List Char)) :
    List.Forall₂ Reads ((lines.map Text.encodeUtf8).map dropReturn) lines := by
  induction lines with
  | nil => exact .nil
  | cons line rest ih => exact .cons (reads_dropReturn line) ih

/-- The lines of an input are the lines of its text. -/
theorem reads_linesOf (text : List Char) :
    List.Forall₂ Reads (linesOf true (Text.encodeUtf8 text)) (textLines text) := by
  unfold linesOf textLines
  cases split : Text.splitAt '\n' text with
  | nil => exact absurd split (Text.splitAt_ne_nil _ _)
  | cons field fields =>
    have cut := splitFrom_encodeUtf8 [] text field fields split
    rw [List.reverse_nil, List.nil_append, ← List.map_cons] at cut
    obtain ⟨front, last, parts⟩ : ∃ front last, field :: fields = front ++ [last] := by
      rcases List.eq_nil_or_concat (field :: fields) with none | ⟨front, last, parts⟩
      · cases none
      · exact ⟨front, last, by rw [parts, List.concat_eq_append]⟩
    simp only [parts, List.map_append, List.map_cons, List.map_nil, List.dropLast_concat,
      List.getLastD_concat] at cut
    simp only [parts, List.getLastD_concat, List.dropLast_concat, cut]
    cases last with
    | nil => exact reads_map_dropReturn front
    | cons char rest =>
      have filled : Text.encodeUtf8 (char :: rest) ≠ [] :=
        List.append_ne_nil_of_left_ne_nil (Text.encodeChar_ne_nil char) _
      simp only [Bool.true_and, List.isEmpty_eq_false_iff.mpr filled, Bool.not_false, if_true,
        reduceCtorEq, if_false]
      exact List.rel_append (reads_map_dropReturn front) (.cons (reads_encodeUtf8 _) .nil)

end Recast.Stream
