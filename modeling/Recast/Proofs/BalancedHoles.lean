import Mathlib.Logic.ExistsUnique
import Recast.Template.Hole
import Recast.Text.Search

set_option autoImplicit false

/-!
# Balanced text in holes

A hole closes where the text after its opening is balanced: every brace outside of quotes has its
partner, and every quote is closed. The scan for the closing brace finds exactly this place.
-/

namespace Recast.Template

/-- The text between two quotes. A backslash hides the character after it, but between back-ticks
it is a character like any other. -/
inductive QuotedText (quote : Char) : List Char → Prop where
  | nil : QuotedText quote []
  | plain {char : Char} {rest : List Char} : char ≠ quote → (char = '\\' → quote = '\x60') →
      QuotedText quote rest → QuotedText quote (char :: rest)
  | hidden {char : Char} {rest : List Char} : quote ≠ '\x60' → QuotedText quote rest →
      QuotedText quote ('\\' :: char :: rest)

/-- Text in which braces and quotes come in pairs. -/
inductive Balanced : List Char → Prop where
  | nil : Balanced []
  | plain {char : Char} {rest : List Char} : char ∉ ['\x7b', '\x7d', '"', '\'', '\x60'] →
      Balanced rest → Balanced (char :: rest)
  | quoted {quote : Char} {text rest : List Char} : quote ∈ ['"', '\'', '\x60'] →
      QuotedText quote text → Balanced rest → Balanced (quote :: (text ++ quote :: rest))
  | braces {inner rest : List Char} : Balanced inner → Balanced rest →
      Balanced ('\x7b' :: (inner ++ '\x7d' :: rest))

theorem Balanced.append {text others : List Char} (balanced : Balanced text)
    (rest : Balanced others) : Balanced (text ++ others) := by
  induction balanced with
  | nil => exact rest
  | plain calm _ ih => exact .plain calm ih
  | @quoted quote text _ known within _ ih =>
    rw [List.cons_append, List.append_assoc, List.cons_append]
    exact .quoted known within ih
  | braces inner _ _ ih =>
    rw [List.cons_append, List.append_assoc, List.cons_append]
    exact .braces inner ih

/-! ## What is still open -/

/-- The text closes that many braces, each after balanced text, and ends with balanced text. -/
def Unwinds : Nat → List Char → Prop
  | 0, text => Balanced text
  | depth + 1, text => ∃ inner rest, text = inner ++ '\x7d' :: rest ∧ Balanced inner ∧
      Unwinds depth rest

/-- The text closes the quote in which the scan stands, and then that many braces. -/
def Completes (depth : Nat) : Scan → List Char → Prop
  | .outside, text => Unwinds depth text
  | .quoted quote, text => ∃ inner rest, text = inner ++ quote :: rest ∧ QuotedText quote inner ∧
      Unwinds depth rest
  | .escaped quote, text => ∃ char inner rest, text = char :: (inner ++ quote :: rest) ∧
      QuotedText quote inner ∧ Unwinds depth rest

section Unwinding

variable {depth : Nat} {char quote : Char} {text rest : List Char}

/-- What can stand before balanced text can stand before text that closes braces as well. -/
private theorem Unwinds.append {front : List Char}
    (joins : ∀ rest, Balanced rest → Balanced (front ++ rest)) (unwinds : Unwinds depth rest) :
    Unwinds depth (front ++ rest) := by
  cases depth with
  | zero => exact joins rest unwinds
  | succ depth =>
    obtain ⟨inner, others, rfl, balanced, unwinds⟩ := unwinds
    exact ⟨front ++ inner, others, by simp, joins inner balanced, unwinds⟩

theorem Unwinds.plain (calm : char ∉ ['\x7b', '\x7d', '"', '\'', '\x60'])
    (unwinds : Unwinds depth rest) : Unwinds depth (char :: rest) :=
  have joins : ∀ rest, Balanced rest → Balanced ([char] ++ rest) := fun _ => .plain calm
  unwinds.append joins

theorem Unwinds.quoted (known : quote ∈ ['"', '\'', '\x60'])
    (completes : Completes depth (.quoted quote) text) : Unwinds depth (quote :: text) := by
  obtain ⟨inner, rest, rfl, within, unwinds⟩ := completes
  have joins : ∀ rest, Balanced rest → Balanced ((quote :: (inner ++ [quote])) ++ rest) := by
    intro rest balanced
    simpa using Balanced.quoted known within balanced
  simpa using unwinds.append joins

theorem Unwinds.opening (unwinds : Unwinds (depth + 1) rest) : Unwinds depth ('\x7b' :: rest) := by
  obtain ⟨inner, rest, rfl, within, unwinds⟩ := unwinds
  have joins : ∀ rest, Balanced rest → Balanced (('\x7b' :: (inner ++ ['\x7d'])) ++ rest) := by
    intro rest balanced
    simpa using Balanced.braces within balanced
  simpa using unwinds.append joins

theorem Unwinds.closing (unwinds : Unwinds depth rest) : Unwinds (depth + 1) ('\x7d' :: rest) :=
  ⟨[], rest, rfl, .nil, unwinds⟩

theorem Completes.within (completes : Completes depth (Scan.within quote char) text) :
    Completes depth (.quoted quote) (char :: text) := by
  unfold Scan.within at completes
  split at completes
  next escapes =>
    rw [Bool.and_eq_true, decide_eq_true_eq, bne_iff_ne] at escapes
    obtain ⟨rfl, noTick⟩ := escapes
    obtain ⟨hidden, inner, rest, rfl, within, unwinds⟩ := completes
    exact ⟨'\\' :: hidden :: inner, rest, rfl, .hidden noTick within, unwinds⟩
  next unescaped =>
    split at completes
    next same =>
      obtain rfl := same
      exact ⟨[], text, rfl, .nil, completes⟩
    next other =>
      obtain ⟨inner, rest, rfl, within, unwinds⟩ := completes
      refine ⟨char :: inner, rest, rfl, .plain other ?_ within, unwinds⟩
      intro escape
      simpa [escape] using unescaped

end Unwinding

/-! ## One character of the scan -/

/-- One character of a scan whose count of open braces may go below zero. -/
def Scan.step (state : Int × Scan) (char : Char) : Int × Scan :=
  match state with
  | (count, .escaped quote) => (count, .quoted quote)
  | (count, .quoted quote) => (count, Scan.within quote char)
  | (count, .outside) =>
    if isQuote char then (count, .quoted char)
    else if char = '\x7b' then (count + 1, .outside)
    else if char = '\x7d' then (count - 1, .outside)
    else (count, .outside)

/-- The character leads a scan from one state to another: the count goes along, the scan goes on,
and text that completes what is then open completes, behind the character, what was open before. -/
structure Advances (depth : Nat) (scan : Scan) (char : Char) (deeper : Nat) (onward : Scan) :
    Prop where
  counts : Scan.step (Int.ofNat depth, scan) char = (Int.ofNat deeper, onward)
  reads : ∀ rest, closeFrom? depth scan (char :: rest) =
    (closeFrom? deeper onward rest).map fun found => (char :: found.1, found.2)
  completes : ∀ text, Completes deeper onward text → Completes depth scan (char :: text)

section Advancing

variable {depth : Nat} {char quote : Char}

theorem isQuote_iff : isQuote char = true ↔ char ∈ ['"', '\'', '\x60'] := by
  simp [isQuote, or_assoc]

theorem advances_escaped (depth : Nat) (quote char : Char) :
    Advances depth (.escaped quote) char depth (.quoted quote) where
  counts := rfl
  reads _ := rfl
  completes := by
    rintro text ⟨inner, rest, rfl, within, unwinds⟩
    exact ⟨char, inner, rest, rfl, within, unwinds⟩

theorem advances_within (depth : Nat) (quote char : Char) :
    Advances depth (.quoted quote) char depth (Scan.within quote char) :=
  ⟨rfl, fun _ => rfl, fun _ => Completes.within⟩

theorem advances_quote (known : char ∈ ['"', '\'', '\x60']) (depth : Nat) :
    Advances depth .outside char depth (.quoted char) := by
  have quotes := isQuote_iff.mpr known
  refine ⟨?_, fun rest => ?_, fun _ => Unwinds.quoted known⟩
  · simp only [Scan.step, quotes, if_true]
  · simp only [closeFrom?, quotes, if_true]

theorem advances_opening (depth : Nat) :
    Advances depth .outside '\x7b' (depth + 1) .outside :=
  ⟨rfl, fun _ => rfl, fun _ => Unwinds.opening⟩

theorem advances_closing (depth : Nat) :
    Advances (depth + 1) .outside '\x7d' depth .outside :=
  ⟨by simp [Scan.step, isQuote], fun _ => rfl, fun _ => Unwinds.closing⟩

theorem advances_plain (calm : char ∉ ['\x7b', '\x7d', '"', '\'', '\x60']) (depth : Nat) :
    Advances depth .outside char depth .outside := by
  have others := calm
  simp only [List.mem_cons, List.not_mem_nil, or_false, not_or] at others
  obtain ⟨noOpening, noClosing, noText, noLetter, noTick⟩ := others
  refine ⟨?_, fun rest => ?_, fun _ => Unwinds.plain calm⟩
  · simp [Scan.step, isQuote, noOpening, noClosing, noText, noLetter, noTick]
  · simp [closeFrom?, isQuote, noOpening, noClosing, noText, noLetter, noTick]

/-- A character closes the hole, if it is a closing brace and nothing is open inside, or the scan
goes on behind it. -/
theorem closes_or_advances (depth : Nat) (scan : Scan) (char : Char) :
    (depth = 0 ∧ scan = .outside ∧ char = '\x7d') ∨
      ∃ deeper onward, Advances depth scan char deeper onward := by
  cases scan with
  | escaped quote => exact .inr ⟨_, _, advances_escaped depth quote char⟩
  | quoted quote => exact .inr ⟨_, _, advances_within depth quote char⟩
  | outside =>
    by_cases quotes : char ∈ ['"', '\'', '\x60']
    · exact .inr ⟨_, _, advances_quote quotes depth⟩
    by_cases opening : char = '\x7b'
    · obtain rfl := opening
      exact .inr ⟨_, _, advances_opening depth⟩
    by_cases closing : char = '\x7d'
    · obtain rfl := closing
      cases depth with
      | zero => exact .inl ⟨rfl, rfl, rfl⟩
      | succ depth => exact .inr ⟨_, _, advances_closing depth⟩
    · have calm : char ∉ ['\x7b', '\x7d', '"', '\'', '\x60'] := by
        rw [List.mem_cons, List.mem_cons]
        exact not_or.mpr ⟨opening, not_or.mpr ⟨closing, quotes⟩⟩
      exact .inr ⟨_, _, advances_plain calm depth⟩

end Advancing

/-! ## Runs of the scan -/

/-- The scan stops at a closing brace, and what it has read completes what was open. -/
theorem completes_of_closeFrom? {depth : Nat} {scan : Scan} {body before after : List Char}
    (closed : closeFrom? depth scan body = some (before, after)) :
    body = before ++ '\x7d' :: after ∧ Completes depth scan before := by
  induction body generalizing depth scan before with
  | nil => cases closed
  | cons char body ih =>
    obtain ⟨rfl, rfl, rfl⟩ | ⟨deeper, onward, advances⟩ := closes_or_advances depth scan char
    · cases closed
      exact ⟨rfl, .nil⟩
    · rw [advances.reads] at closed
      obtain ⟨⟨inner, rest⟩, found, same⟩ := Option.map_eq_some_iff.mp closed
      cases same
      obtain ⟨rfl, completes⟩ := ih found
      exact ⟨rfl, advances.completes inner completes⟩

/-- As long as no closing brace has been found the count is not negative, and the scan goes on with
what it says. -/
theorem closeFrom?_of_open {depth : Nat} {scan : Scan} {before : List Char}
    (unclosed : closeFrom? depth scan before = none) (after : List Char) :
    ∃ deeper onward, before.foldl Scan.step (Int.ofNat depth, scan) = (Int.ofNat deeper, onward) ∧
      closeFrom? depth scan (before ++ after) =
        (closeFrom? deeper onward after).map fun found => (before ++ found.1, found.2) := by
  induction before generalizing depth scan with
  | nil => exact ⟨depth, scan, rfl, by simp⟩
  | cons char before ih =>
    obtain ⟨rfl, rfl, rfl⟩ | ⟨deeper, onward, advances⟩ := closes_or_advances depth scan char
    · cases unclosed
    · rw [advances.reads, Option.map_eq_none_iff] at unclosed
      obtain ⟨last, reached, run, rest⟩ := ih unclosed
      refine ⟨last, reached, ?_, ?_⟩
      · rw [List.foldl_cons, advances.counts, run]
      · rw [List.cons_append, advances.reads, rest, Option.map_map]
        rfl

/-! ## Balanced text is passed over -/

section Passing

variable {depth : Nat} {quote : Char} {text : List Char}

theorem Scan.within_self (known : quote ∈ ['"', '\'', '\x60']) :
    Scan.within quote quote = .outside := by
  have noEscape : quote ≠ '\\' := by
    rintro rfl
    revert known
    decide
  simp [within, noEscape]

theorem Scan.within_plain {char : Char} (other : char ≠ quote)
    (unescaped : char = '\\' → quote = '\x60') : Scan.within quote char = .quoted quote := by
  by_cases escape : char = '\\'
  · obtain rfl := unescaped escape
    simp [within, other]
  · simp [within, other, escape]

theorem Scan.within_hidden (noTick : quote ≠ '\x60') : Scan.within quote '\\' = .escaped quote := by
  simp [within, noTick]

theorem closeFrom?_quotedText (known : quote ∈ ['"', '\'', '\x60'])
    (within : QuotedText quote text) (depth : Nat) (rest : List Char) :
    closeFrom? depth (.quoted quote) (text ++ quote :: rest) =
      (closeFrom? depth .outside rest).map fun found => (text ++ quote :: found.1, found.2) := by
  induction within with
  | nil =>
    rw [List.nil_append, (advances_within depth quote quote).reads, Scan.within_self known]
    rfl
  | @plain char _ other unescaped _ ih =>
    rw [List.cons_append, (advances_within depth quote char).reads,
      Scan.within_plain other unescaped, ih, Option.map_map]
    rfl
  | @hidden char _ noTick _ ih =>
    rw [List.cons_append, List.cons_append, (advances_within depth quote '\\').reads,
      Scan.within_hidden noTick, (advances_escaped depth quote char).reads, ih, Option.map_map,
      Option.map_map]
    rfl

theorem closeFrom?_balanced (balanced : Balanced text) (depth : Nat) (rest : List Char) :
    closeFrom? depth .outside (text ++ rest) =
      (closeFrom? depth .outside rest).map fun found => (text ++ found.1, found.2) := by
  induction balanced generalizing depth rest with
  | nil => simp
  | plain calm _ ih =>
    rw [List.cons_append, (advances_plain calm depth).reads, ih, Option.map_map]
    rfl
  | quoted known within _ ih =>
    rw [List.cons_append, (advances_quote known depth).reads, List.append_assoc, List.cons_append,
      closeFrom?_quotedText known within, ih, Option.map_map, Option.map_map]
    simp [Function.comp_def]
  | braces _ _ innerIH restIH =>
    rw [List.cons_append, (advances_opening depth).reads, List.append_assoc, List.cons_append,
      innerIH, (advances_closing depth).reads, restIH, Option.map_map, Option.map_map,
      Option.map_map]
    simp [Function.comp_def]

end Passing

/-! ## Where a hole ends -/

section Holes

variable {inner after : List Char}

/-- A hole closes at the brace after balanced text. -/
theorem closeHole?_eq_some_iff {body : List Char} :
    closeHole? body = some (inner, after) ↔ body = inner ++ '\x7d' :: after ∧ Balanced inner := by
  constructor
  · exact completes_of_closeFrom?
  · rintro ⟨rfl, balanced⟩
    rw [closeHole?, closeFrom?_balanced balanced]
    simp [closeFrom?, isQuote]

/-- Whether the scan finds a text balanced. -/
def isBalanced (text : List Char) : Bool :=
  closeHole? (text ++ ['\x7d']) == some (text, [])

theorem isBalanced_iff {text : List Char} : isBalanced text = true ↔ Balanced text := by
  rw [isBalanced, beq_iff_eq, closeHole?_eq_some_iff]
  exact and_iff_right rfl

/-- No two closing braces of a text stand after balanced text. -/
theorem Balanced.unique {other rest : List Char} (balanced : Balanced inner)
    (otherBalanced : Balanced other) (same : inner ++ '\x7d' :: after = other ++ '\x7d' :: rest) :
    inner = other ∧ after = rest := by
  have found : closeHole? (inner ++ '\x7d' :: after) = some (inner, after) :=
    closeHole?_eq_some_iff.mpr ⟨rfl, balanced⟩
  rw [same, closeHole?_eq_some_iff.mpr ⟨rfl, otherBalanced⟩] at found
  cases found
  exact ⟨rfl, rfl⟩

instance (text : List Char) : Decidable (Balanced text) :=
  decidable_of_iff (closeHole? (text ++ ['\x7d']) = some (text, []))
    (closeHole?_eq_some_iff.trans (and_iff_right rfl))

example : Balanced "if tag == \"\x7d\" \x7b '\\'' \x7d else \x7b \x60\\\x60 \x7d".toList := by
  decide

/-- A template is a single hole if braces after a dollar sign hold balanced text that is not blank,
and nothing follows them. -/
theorem singleHole?_eq_some_iff {source : List Char} :
    singleHole? source = some inner ↔ source = '$' :: '\x7b' :: (inner ++ ['\x7d']) ∧
      Balanced inner ∧ Text.isAllBlank inner = false := by
  constructor
  · intro single
    unfold singleHole? at single
    split at single
    next body =>
      split at single
      next found closed =>
        obtain ⟨rfl, balanced⟩ := closeHole?_eq_some_iff.mp closed
        by_cases blank : Text.isAllBlank found = true
        · rw [if_pos blank] at single
          cases single
        · rw [if_neg blank] at single
          cases single
          exact ⟨rfl, balanced, Bool.eq_false_iff.mpr blank⟩
      next => cases single
    next => cases single
  · rintro ⟨rfl, balanced, shown⟩
    rw [singleHole?, closeHole?_eq_some_iff.mpr ⟨rfl, balanced⟩]
    dsimp only
    rw [shown]
    rfl

/-- A hole closes at the one brace that stands after balanced text, if there is one, and up to there
the count of open braces is never negative. So a template is a single hole if and only if its braces
hold balanced text that is not blank and are its end, and its script is then this text. With more
text or another hole behind its first hole it is none. -/
theorem holes_close_at_balance (source : List Char) :
    (∀ offset, ((closeHole? source).map fun found => Text.byteCount found.1) = some offset ↔
      ∃! inner, Balanced inner ∧ Text.byteCount inner = offset ∧
        ∃ after, source = inner ++ '\x7d' :: after) ∧
    (closeHole? source = none ↔ ¬ ∃ inner after, Balanced inner ∧
      source = inner ++ '\x7d' :: after) ∧
    (∀ inner other after rest, Balanced inner → Balanced other →
      source = inner ++ '\x7d' :: after → source = other ++ '\x7d' :: rest → inner = other) ∧
    (∀ before after, source = before ++ after → closeHole? before = none →
      ∃ depth scan, before.foldl Scan.step (0, .outside) = (Int.ofNat depth, scan) ∧
        closeHole? source =
          (closeFrom? depth scan after).map fun found => (before ++ found.1, found.2)) ∧
    (∀ inner, singleHole? source = some inner ↔ source = '$' :: '\x7b' :: (inner ++ ['\x7d']) ∧
      Balanced inner ∧ Text.isAllBlank inner = false) ∧
    (∀ inner, singleHole? source = some inner → rewrite true source = inner) ∧
    (∀ inner after, Balanced inner → after ≠ [] →
      source = '$' :: '\x7b' :: (inner ++ '\x7d' :: after) → singleHole? source = none) := by
  have ends : ∀ inner after, closeHole? source = some (inner, after) ↔
      source = inner ++ '\x7d' :: after ∧ Balanced inner := fun _ _ => closeHole?_eq_some_iff
  refine ⟨fun offset => ⟨?_, ?_⟩, ⟨?_, ?_⟩, ?_, ?_, fun _ => singleHole?_eq_some_iff, ?_, ?_⟩
  · intro found
    obtain ⟨⟨inner, after⟩, closed, size⟩ := Option.map_eq_some_iff.mp found
    obtain ⟨split, balanced⟩ := (ends inner after).mp closed
    refine ⟨inner, ⟨balanced, size, after, split⟩, ?_⟩
    rintro other ⟨otherBalanced, _, rest, otherSplit⟩
    exact (otherBalanced.unique balanced (otherSplit.symm.trans split)).1
  · rintro ⟨inner, ⟨balanced, size, after, split⟩, _⟩
    rw [(ends inner after).mpr ⟨split, balanced⟩, Option.map_some, size]
  · rintro unclosed ⟨inner, after, balanced, split⟩
    rw [(ends inner after).mpr ⟨split, balanced⟩] at unclosed
    cases unclosed
  · intro unbalanced
    rw [Option.eq_none_iff_forall_ne_some]
    rintro ⟨inner, after⟩ closed
    obtain ⟨split, balanced⟩ := (ends inner after).mp closed
    exact unbalanced ⟨inner, after, balanced, split⟩
  · intro inner other after rest balanced otherBalanced split otherSplit
    exact (balanced.unique otherBalanced (split.symm.trans otherSplit)).1
  · rintro before after rfl unclosed
    exact closeFrom?_of_open unclosed after
  · intro inner single
    rw [rewrite, if_pos rfl, single]
  · rintro inner after balanced filled rfl
    rw [Option.eq_none_iff_forall_ne_some]
    intro other single
    obtain ⟨split, otherBalanced, _⟩ := singleHole?_eq_some_iff.mp single
    have same : inner ++ '\x7d' :: after = other ++ '\x7d' :: [] := by simpa using split
    exact filled (balanced.unique otherBalanced same).2

end Holes

end Recast.Template
