import Recast.Proofs.BoundNames

set_option autoImplicit false

/-!
# Where a hole ends

A template looks for the brace that closes a hole by its quotes and braces, scripts read the hole
token by token. Both find the same brace unless scripts read a text between back-ticks in the hole,
or a comment or a raw text whose quotes and braces come in no pairs.
-/

namespace Recast.Script

open Template

variable {depth fuel : Nat} {operand : Bool} {char : Char} {rest text inner after : List Char}
  {read : Reading}

/-! ## What scripts read as a hole -/

/-- The text behind the brace that closes a hole, as scripts read it. -/
def afterHole? : Nat → List Nat → Bool → List Char → Option (List Char)
  | 0, _, _, _ => none
  | _ + 1, _, _, [] => none
  | fuel + 1, holes, operand, char :: rest =>
    if holes = [1] ∧ char = '\x7d' then some rest
    else (lexOne holes operand char rest).bind fun read =>
      afterHole? fuel read.holes read.operand read.rest

/-- A comment or a raw text begins, whose quotes and braces are none to scripts. -/
def startsUnread (char : Char) (rest : List Char) : Bool :=
  char = '/' && (rest.head? = some '/' || rest.head? = some '*') ||
    char = '#' && (rest.head? = some '"' || rest.head? = some '#')

/-- Every comment and every raw text that scripts read in a hole is balanced. -/
def isEven : Nat → List Nat → Bool → List Char → Bool
  | 0, _, _, _ => true
  | _ + 1, _, _, [] => true
  | fuel + 1, holes, operand, char :: rest =>
    if holes = [1] ∧ char = '\x7d' then true
    else (lexOne holes operand char rest).all fun read =>
      (!startsUnread char rest ||
        isBalanced (char :: rest.take (rest.length - read.rest.length))) &&
        isEven fuel read.holes read.operand read.rest

/-- Scripts read a template as one hole with this text in it, and as nothing else. -/
def IsOneHole (source inner : List Char) : Prop :=
  ∃ after, readPart (dropLineBreak (doubleTicks source ++ ['\x60'])) =
      some ([], true, inner ++ '\x7d' :: after) ∧
    afterHole? ((doubleTicks source ++ ['\x60']).length + 1) [1] false (inner ++ '\x7d' :: after) =
      some after ∧
    readPart after = some ([], false, [])

/-! ## One token of a hole -/

theorem skipComment_suffix (fuel depth : Nat) (input : List Char) :
    skipComment fuel depth input <:+ input := by
  fun_induction skipComment fuel depth input with
  | case1 => exact List.suffix_rfl
  | case2 => exact List.suffix_rfl
  | case3 fuel rest => exact List.suffix_append ['*', '/'] rest
  | case4 fuel rest depth ih => exact ih.trans (List.suffix_append ['*', '/'] rest)
  | case5 fuel depth rest ih => exact ih.trans (List.suffix_append ['/', '*'] rest)
  | case6 fuel depth char rest _ _ ih => exact ih.trans (List.suffix_cons char rest)

/-- What one token of a hole takes: the scan goes along with it, unless it is a comment or a raw
text that is not balanced. -/
def HoleChunk (depth : Nat) (char : Char) (rest : List Char) (read : Reading) : Prop :=
  ∃ deeper chunk, read.holes = [deeper + 1] ∧ rest = chunk ++ read.rest ∧
    ((startsUnread char rest = true → Balanced (char :: chunk)) →
      Leads depth .outside (char :: chunk) deeper .outside)

theorem holeChunk_of_passes (holes : read.holes = [depth + 1])
    (calm : staysOutside char = true) (passes : Passes rest read.rest) :
    HoleChunk depth char rest read := by
  obtain ⟨chunk, whole, others⟩ := passes
  exact ⟨depth, chunk, holes, whole, fun _ =>
    leads_of_balanced (balanced_of_outside (List.forall_mem_cons.mpr ⟨calm, others⟩)) depth⟩

theorem holeChunk_of_quoted {content : List Char} (quotes : isQuote char = true)
    (noTick : char ≠ '\x60') (holes : read.holes = [depth + 1])
    (quoted : lexQuoted char (rest.length + 1) rest = some (content, read.rest)) :
    HoleChunk depth char rest read := by
  obtain ⟨chunk, whole, known⟩ := exists_quotedChunk quotes noTick quoted
  refine ⟨depth, chunk, holes, whole, fun _ => ?_⟩
  exact (Leads.single (advances_quote (isQuote_iff.mp quotes) depth)).trans (known.leads depth)

theorem holeChunk_of_unread (holes : read.holes = [depth + 1])
    (unread : startsUnread char rest = true) (left : read.rest <:+ rest) :
    HoleChunk depth char rest read := by
  obtain ⟨chunk, whole⟩ := left
  exact ⟨depth, chunk, holes, whole.symm, fun even => leads_of_balanced (even unread) depth⟩

/-- A token of a hole that is no text between back-ticks leaves the braces of the hole where the
scan leaves them. -/
theorem holeChunk_of_lexOne (one : lexOne [depth + 1] operand char rest = some read)
    (noTick : char ≠ '\x60') (inside : ¬ (depth = 0 ∧ char = '\x7d')) :
    HoleChunk depth char rest read := by
  revert one
  fun_cases lexOne [depth + 1] operand char rest
  all_goals intro one
  case case1 blank =>
    cases one
    exact holeChunk_of_passes rfl (staysOutside_of rfl blank) (.refl rest)
  case case2 noBlank digit =>
    obtain ⟨⟨token, left⟩, number, rfl⟩ := Option.map_eq_some_iff.mp one
    exact holeChunk_of_passes rfl (staysOutside_of_isDigit char digit)
      (passes_lexNumber digit number)
  case case3 noBlank noDigit starts =>
    have passes := passes_lexWord starts one
    obtain ⟨token, _, rfl⟩ := Option.map_eq_some_iff.mp one
    exact holeChunk_of_passes rfl
      (staysOutside_of_isNamePart (isNamePart_of_isNameStart starts)) passes
  case case4 quote =>
    subst quote
    obtain ⟨⟨content, left⟩, quoted, rfl⟩ := Option.map_eq_some_iff.mp one
    exact holeChunk_of_quoted rfl noTick rfl quoted
  case case5 quote =>
    subst quote
    obtain ⟨letter, left, quoted, rfl⟩ := lexLetter_eq one
    exact holeChunk_of_quoted rfl noTick rfl quoted
  case case6 tick => exact absurd tick noTick
  case case7 comment =>
    cases one
    have starts : startsUnread char rest = true := by
      simp only [Bool.and_eq_true, decide_eq_true_eq] at comment
      simp [startsUnread, comment]
    exact holeChunk_of_unread rfl starts (List.dropWhile_suffix _)
  case case8 comment =>
    cases one
    have starts : startsUnread char rest = true := by
      simp only [Bool.and_eq_true, decide_eq_true_eq] at comment
      simp [startsUnread, comment]
    exact holeChunk_of_unread rfl starts
      ((skipComment_suffix _ _ _).trans (List.drop_suffix 1 rest))
  case case9 opening =>
    subst opening
    cases one
    exact ⟨depth + 1, [], rfl, rfl, fun _ => .single (advances_opening depth)⟩
  case case10 map =>
    simp only [Bool.and_eq_true, decide_eq_true_eq] at map
    obtain ⟨rfl, opening⟩ := map
    obtain ⟨rest, rfl⟩ := List.head?_eq_some_iff.mp opening
    cases one
    refine ⟨depth + 1, ['\x7b'], rfl, rfl, fun _ => ?_⟩
    exact (Leads.single (advances_plain (by decide) depth)).trans (.single (advances_opening depth))
  case case11 raw =>
    have starts : startsUnread char rest = true := by
      simp only [Bool.and_eq_true, Bool.or_eq_true, decide_eq_true_eq] at raw
      simp [startsUnread, raw]
    obtain ⟨⟨content, left⟩, found, rfl⟩ := Option.map_eq_some_iff.mp one
    obtain ⟨_, chunk, rfl, _⟩ := exists_rawChunk found
    exact holeChunk_of_unread rfl starts (List.suffix_append chunk left)
  case case12 closing =>
    subst closing
    cases depth with
    | zero => exact absurd ⟨rfl, rfl⟩ inside
    | succ outer =>
      cases one
      exact ⟨outer, [], rfl, rfl, fun _ => .single (advances_closing outer)⟩
  case case13 noBlank noDigit noStart noText noLetter noTick noLine noBlock noOpening noMap noRaw
      noClosing =>
    obtain ⟨⟨token, left⟩, sign, rfl⟩ := Option.map_eq_some_iff.mp one
    have calm : staysOutside char = true := by
      simp [staysOutside, isQuote, noText, noLetter, noTick, noOpening, noClosing]
    exact holeChunk_of_passes rfl calm (passes_lexSign (by simpa using noMap) sign)

/-! ## One token alone -/

/-- The end of a comment is found whatever follows it. -/
theorem exists_commentChunk {input left : List Char} (enough : input.length ≤ fuel)
    (read : skipComment fuel depth input = left) (filled : left ≠ []) :
    ∃ chunk, chunk ≠ [] ∧ input = chunk ++ left ∧ ∀ other less, chunk.length ≤ less →
      skipComment less depth (chunk ++ other) = other := by
  fun_induction skipComment fuel depth input with
  | case1 depth input =>
    obtain rfl := List.length_eq_zero_iff.mp (Nat.le_zero.mp enough)
    exact absurd read.symm filled
  | case2 => exact absurd read.symm filled
  | case3 fuel rest =>
    refine ⟨['*', '/'], List.cons_ne_nil _ _, by rw [← read]; rfl, fun other less room => ?_⟩
    obtain ⟨less, rfl⟩ := Nat.exists_eq_add_of_le' (Nat.lt_of_lt_of_le Nat.zero_lt_two room)
    rfl
  | case4 fuel rest depth ih =>
    rw [List.length_cons, List.length_cons] at enough
    obtain ⟨chunk, _, rfl, others⟩ := ih (by omega) read
    refine ⟨'*' :: '/' :: chunk, List.cons_ne_nil _ _, rfl, fun other less room => ?_⟩
    rw [List.length_cons, List.length_cons] at room
    obtain ⟨less, rfl⟩ : ∃ more, less = more + 1 := ⟨less - 1, by omega⟩
    exact others other less (by omega)
  | case5 fuel depth rest ih =>
    rw [List.length_cons, List.length_cons] at enough
    obtain ⟨chunk, _, rfl, others⟩ := ih (by omega) read
    refine ⟨'/' :: '*' :: chunk, List.cons_ne_nil _ _, rfl, fun other less room => ?_⟩
    rw [List.length_cons, List.length_cons] at room
    obtain ⟨less, rfl⟩ : ∃ more, less = more + 1 := ⟨less - 1, by omega⟩
    exact others other less (by omega)
  | case6 fuel depth char rest noEnd noStart ih =>
    rw [List.length_cons] at enough
    obtain ⟨chunk, some, rfl, others⟩ := ih (by omega) read
    refine ⟨char :: chunk, List.cons_ne_nil _ _, rfl, fun other less room => ?_⟩
    rw [List.length_cons] at room
    obtain ⟨less, rfl⟩ : ∃ more, less = more + 1 := ⟨less - 1, by omega⟩
    obtain ⟨next, chunk, rfl⟩ := List.exists_cons_of_ne_nil some
    rw [List.cons_append, skipComment]
    · exact others other less (by omega)
    · rintro after rfl same
      cases same
      exact noEnd _ rfl rfl
    · rintro after rfl same
      cases same
      exact noStart _ rfl rfl

/-- A quoted text that ends in a hole ends there without what follows the hole, too. -/
theorem lexQuoted_alone {quote : Char} {content left more : List Char}
    (quotes : isQuote quote = true) (noTick : quote ≠ '\x60')
    (read : lexQuoted quote fuel (rest ++ '\x7d' :: more) =
      some (content, left ++ '\x7d' :: more)) :
    lexQuoted quote (rest.length + 1) rest = some (content, left) := by
  obtain ⟨chunk, whole, known⟩ := exists_quotedChunk quotes noTick read
  rw [← List.append_assoc] at whole
  obtain rfl := List.append_cancel_right whole
  have noClosing : quote ≠ '\x7d' := by rintro rfl; cases quotes
  refine known.reads _ left ?_ fun first =>
    known.single ((head?_before noClosing left more).mpr first)
  rw [List.length_append]
  omega

/-- A comment that ends with its line in a hole ends there without what follows the hole, too. -/
theorem dropWhile_alone {left more : List Char}
    (skipped : (rest ++ '\x7d' :: more).dropWhile (· != '\n') = left ++ '\x7d' :: more) :
    rest.dropWhile (· != '\n') = left := by
  rw [List.dropWhile_append] at skipped
  split at skipped
  next none =>
    have shorter := (List.dropWhile_suffix (· != '\n') (l := more)).length_le
    have size := congrArg List.length skipped
    rw [List.dropWhile_cons_of_pos (by decide), List.length_append, List.length_cons] at size
    omega
  next => exact List.append_cancel_right skipped

theorem skipComment_alone {left more : List Char}
    (skipped : skipComment (('*' :: rest) ++ '\x7d' :: more).length 0 (rest ++ '\x7d' :: more) =
      left ++ '\x7d' :: more) :
    skipComment ('*' :: rest).length 0 rest = left := by
  obtain ⟨chunk, _, whole, others⟩ := exists_commentChunk (by simp) skipped (by simp)
  rw [← List.append_assoc] at whole
  obtain rfl := List.append_cancel_right whole
  apply others
  rw [List.length_cons, List.length_append]
  omega

theorem lexOne_lineComment (holes : List Nat) (operand : Bool) (rest : List Char) :
    lexOne holes operand '/' ('/' :: rest) =
      some (.skip holes operand (('/' :: rest).dropWhile (· != '\n'))) := rfl

theorem lexOne_blockComment (holes : List Nat) (operand : Bool) (rest : List Char) :
    lexOne holes operand '/' ('*' :: rest) =
      some (.skip holes operand (skipComment ('*' :: rest).length 0 rest)) := rfl

theorem lexOne_alone {left more : List Char}
    (one : lexOne [depth + 1] operand char (rest ++ '\x7d' :: more) = some read)
    (ending : read.rest = left ++ '\x7d' :: more) (noTick : char ≠ '\x60')
    (inside : ¬ (depth = 0 ∧ char = '\x7d')) (ends : (char :: rest).getLast? ≠ some '.') :
    lexOne [] operand char rest = some ⟨read.tokens, [], read.operand, left⟩ := by
  have heads : ∀ next, next ≠ '\x7d' →
      decide ((rest ++ '\x7d' :: more).head? = some next) = decide (rest.head? = some next) :=
    fun next other => decide_eq_decide.mpr (head?_before other rest more)
  generalize whole : rest ++ '\x7d' :: more = input at one
  revert one
  fun_cases lexOne [depth + 1] operand char input
  all_goals intro one
  all_goals subst whole
  case case1 blank =>
    cases one
    obtain rfl := List.append_cancel_right ending
    rw [lexOne, if_pos blank]
    rfl
  case case2 noBlank digit =>
    rw [← List.cons_append, lexNumber_append false ends, Option.map_map] at one
    obtain ⟨⟨token, after⟩, number, rfl⟩ := Option.map_eq_some_iff.mp one
    obtain rfl := List.append_cancel_right ending
    rw [lexOne, if_neg noBlank, if_pos digit, number]
    rfl
  case case3 noBlank noDigit starts =>
    rw [← List.cons_append, lexWord_append, lexWord_eq, Option.map_map] at one
    obtain ⟨token, known, rfl⟩ := Option.map_eq_some_iff.mp one
    obtain rfl := List.append_cancel_right ending
    rw [lexOne, if_neg noBlank, if_neg noDigit, if_pos starts, lexWord_eq, known]
    rfl
  case case4 noBlank noDigit noStart quote =>
    subst quote
    obtain ⟨⟨content, after⟩, quoted, rfl⟩ := Option.map_eq_some_iff.mp one
    obtain rfl : after = left ++ '\x7d' :: more := ending
    rw [lexOne, if_neg noBlank, if_neg noDigit, if_neg noStart, if_pos rfl,
      lexQuoted_alone rfl noTick quoted]
    rfl
  case case5 noBlank noDigit noStart noText quote =>
    subst quote
    have begins := mt (head?_before (by decide) rest more).mpr (lexLetter_filled one)
    obtain ⟨letter, after, quoted, rfl⟩ := lexLetter_eq one
    obtain rfl : after = left ++ '\x7d' :: more := ending
    rw [lexOne, if_neg noBlank, if_neg noDigit, if_neg noStart, if_neg noText, if_pos rfl,
      lexLetter_of_quoted begins (lexQuoted_alone rfl noTick quoted)]
    rfl
  case case6 tick => exact absurd tick noTick
  case case7 comment =>
    cases one
    rw [heads '/' (by decide)] at comment
    simp only [Bool.and_eq_true, decide_eq_true_eq] at comment
    obtain ⟨rfl, slash⟩ := comment
    obtain ⟨rest, rfl⟩ := List.head?_eq_some_iff.mp slash
    rw [lexOne_lineComment, dropWhile_alone ending]
    rfl
  case case8 comment =>
    cases one
    rw [heads '*' (by decide)] at comment
    simp only [Bool.and_eq_true, decide_eq_true_eq] at comment
    obtain ⟨rfl, star⟩ := comment
    obtain ⟨rest, rfl⟩ := List.head?_eq_some_iff.mp star
    rw [lexOne_blockComment, skipComment_alone ending]
    rfl
  case case9 opening _ _ =>
    subst opening
    cases one
    obtain rfl := List.append_cancel_right ending
    rfl
  case case10 map =>
    rw [heads '\x7b' (by decide)] at map
    simp only [Bool.and_eq_true, decide_eq_true_eq] at map
    obtain ⟨rfl, opening⟩ := map
    obtain ⟨rest, rfl⟩ := List.head?_eq_some_iff.mp opening
    cases one
    obtain rfl := List.append_cancel_right ending
    rfl
  case case11 noMap raw =>
    rw [heads '"' (by decide), heads '#' (by decide)] at raw
    rw [heads '\x7b' (by decide)] at noMap
    simp only [Bool.and_eq_true, Bool.or_eq_true, decide_eq_true_eq] at raw
    obtain ⟨rfl, begins⟩ := raw
    obtain ⟨⟨content, after⟩, found, rfl⟩ := Option.map_eq_some_iff.mp one
    obtain rfl : after = left ++ '\x7d' :: more := ending
    obtain ⟨_, chunk, whole, known⟩ := exists_rawChunk found
    rw [← List.append_assoc] at whole
    obtain rfl := List.append_cancel_right whole
    rw [lexOne_number (by simpa using noMap) begins, lexRaw, known.reads]
    rfl
  case case12 closing _ _ _ _ =>
    subst closing
    cases depth with
    | zero => exact absurd ⟨rfl, rfl⟩ inside
    | succ outer =>
      cases one
      obtain rfl := List.append_cancel_right ending
      rfl
  case case13 noBlank noDigit noStart noText noLetter noTick noOpening noClosing noLine noBlock
      noMap noRaw =>
    have noStop : rest.getLast? ≠ some '.' := by
      intro last
      rw [List.getLast?_cons, last] at ends
      exact ends rfl
    rw [lexSign_append fun _ => lexNumber_append true noStop more, Option.map_map] at one
    obtain ⟨⟨token, after⟩, sign, rfl⟩ := Option.map_eq_some_iff.mp one
    obtain rfl := List.append_cancel_right ending
    rw [heads '/' (by decide)] at noLine
    rw [heads '*' (by decide)] at noBlock
    rw [heads '\x7b' (by decide)] at noMap
    rw [heads '"' (by decide), heads '#' (by decide)] at noRaw
    rw [lexOne, if_neg noBlank, if_neg noDigit, if_neg noStart, if_neg noText, if_neg noLetter,
      if_neg noTick, if_neg noLine, if_neg noBlock, if_neg noOpening, if_neg noMap, if_neg noRaw,
      if_neg noClosing, sign]
    rfl

/-! ## The whole hole -/

theorem isEven_of_lexOne (one : lexOne [depth + 1] operand char rest = some read)
    (inside : ¬ (depth = 0 ∧ char = '\x7d'))
    (even : isEven (fuel + 1) [depth + 1] operand (char :: rest) = true) :
    (startsUnread char rest = true → ∀ chunk, rest = chunk ++ read.rest →
      Balanced (char :: chunk)) ∧
      isEven fuel read.holes read.operand read.rest = true := by
  rw [isEven, if_neg (by simpa using inside), one, Option.all_some, Bool.and_eq_true] at even
  refine ⟨fun unread chunk whole => ?_, even.2⟩
  have size := congrArg List.length whole
  rw [List.length_append] at size
  have taken : rest.take (rest.length - read.rest.length) = chunk := by
    rw [whole, List.length_append, Nat.add_sub_cancel, List.take_left]
  rw [unread, taken] at even
  exact isBalanced_iff.mp even.1

/-- What is left inside of a hole ends in the back-tick that ends the text. -/
theorem exists_left_of_lexFrom {holes : Nat} {chunk left : List Char} {tokens : List Token}
    (run : lexFrom fuel [holes] operand left = some tokens)
    (whole : text ++ ['\x60'] = chunk ++ left) :
    ∃ before, left = before ++ ['\x60'] ∧ before <:+ text := by
  rcases List.eq_nil_or_concat left with rfl | ⟨before, last, rfl⟩
  · cases fuel <;> cases run
  · rw [List.concat_eq_append, ← List.append_assoc] at whole
    obtain ⟨rfl, ending⟩ := List.append_inj' whole rfl
    cases ending
    exact ⟨before, List.concat_eq_append, List.suffix_append chunk before⟩

/-- Scripts find the brace that the scan finds. -/
theorem afterHole?_eq_closeFrom? {tokens : List Token} (ticksNone : '\x60' ∉ text)
    (lexes : lexFrom fuel [depth + 1] operand (text ++ ['\x60']) = some tokens)
    (even : isEven fuel [depth + 1] operand (text ++ ['\x60']) = true) :
    afterHole? fuel [depth + 1] operand (text ++ ['\x60']) =
      (closeFrom? depth .outside (text ++ ['\x60'])).map Prod.snd := by
  induction fuel generalizing depth operand text tokens with
  | zero => cases lexes
  | succ fuel ih =>
    cases text with
    | nil =>
      -- The last back-tick would begin a text without an end.
      cases lexes
    | cons char rest =>
      rw [List.cons_append] at lexes even ⊢
      rw [afterHole?]
      by_cases closes : depth = 0 ∧ char = '\x7d'
      · obtain ⟨rfl, rfl⟩ := closes
        rfl
      rw [if_neg (by simpa using closes)]
      rw [lexFrom_cons] at lexes
      obtain ⟨read, one, others⟩ := Option.bind_eq_some_iff.mp lexes
      obtain ⟨later, run, rfl⟩ := Option.map_eq_some_iff.mp others
      have noTick : char ≠ '\x60' := fun tick => ticksNone (tick ▸ List.mem_cons_self)
      obtain ⟨evenChunk, evenLater⟩ := isEven_of_lexOne one closes even
      obtain ⟨deeper, chunk, holes, whole, leads⟩ := holeChunk_of_lexOne one noTick closes
      have scan := leads (fun unread => evenChunk unread chunk whole) read.rest
      rw [List.cons_append, ← whole] at scan
      rw [one, Option.bind_some, scan]
      rw [holes] at run evenLater ⊢
      obtain ⟨left, ending, within⟩ := exists_left_of_lexFrom run whole
      rw [ending] at run evenLater ⊢
      have leftNone : '\x60' ∉ left := fun member =>
        ticksNone (List.mem_cons_of_mem _ (within.subset member))
      rw [ih leftNone run evenLater, Option.map_map]
      rfl

/-- An empty part of a text is followed by its end or by the opening of a hole. -/
theorem eq_of_readPart {input left : List Char} {more : Bool}
    (read : readPart input = some ([], more, left)) :
    input = if more then '$' :: '\x7b' :: left else '\x60' :: left := by
  unfold readPart at read
  revert read
  fun_cases lexPart (input.length + 1) input
  all_goals intro read
  case case1 | case2 => cases read
  case case4 | case6 => cases read; rfl
  all_goals
    obtain ⟨_, _, same⟩ := Option.map_eq_some_iff.mp read
    cases same

theorem tick_mem_doubleTicks (member : '\x60' ∈ text) : '\x60' ∈ doubleTicks text :=
  List.mem_flatMap.mpr ⟨_, member, by simp⟩

/-- What scripts read as one hole stands between the braces of the template, with its back-ticks
doubled and but for a line break before it. -/
theorem IsOneHole.source_eq {source : List Char} (whole : IsOneHole source inner) :
    doubleTicks (dropLineBreak source) = '$' :: '\x7b' :: (inner ++ ['\x7d']) ∧
      afterHole? ((doubleTicks source ++ ['\x60']).length + 1) [1] false
        (inner ++ ['\x7d'] ++ ['\x60']) = some ['\x60'] := by
  obtain ⟨after, opens, closes, ends⟩ := whole
  have last : after = ['\x60'] := eq_of_readPart ends
  subst last
  have text := eq_of_readPart opens
  rw [if_pos rfl, dropLineBreak_doubleTicks] at text
  rw [List.append_assoc]
  have split : doubleTicks (dropLineBreak source) ++ ['\x60'] =
      '$' :: '\x7b' :: (inner ++ ['\x7d']) ++ ['\x60'] := by
    rw [text]
    simp
  exact ⟨List.append_cancel_right split, closes⟩

/-- A template that scripts read as one hole is a single hole for the scan exactly if no line break
stands before it and what stands in it is balanced and neither blank nor with back-ticks. -/
theorem singleHole?_eq_some_iff_of_isOneHole {source : List Char} (whole : IsOneHole source inner) :
    singleHole? source = some inner ↔ dropLineBreak source = source ∧ '\x60' ∉ inner ∧
      Balanced inner ∧ Text.isAllBlank inner = false := by
  obtain ⟨text, _⟩ := whole.source_eq
  rw [singleHole?_eq_some_iff]
  constructor
  · rintro ⟨rfl, balanced, shown⟩
    refine ⟨rfl, fun member => ?_, balanced, shown⟩
    have none : '\x60' ∉ '$' :: '\x7b' :: (inner ++ ['\x7d']) :=
      (doubleTicks_eq_self_iff _).mp text
    simp [member] at none
  · rintro ⟨noBreak, ticksNone, balanced, shown⟩
    rw [noBreak] at text
    have none : '\x60' ∉ source := by
      intro member
      have doubled := tick_mem_doubleTicks member
      rw [text] at doubled
      simp [ticksNone] at doubled
    rw [doubleTicks_eq_self none] at text
    exact ⟨text, balanced, shown⟩

/-- The comments and raw texts of a template that begins with a hole are balanced, as far as the
hole goes. -/
def hasEvenHole (source : List Char) : Bool :=
  match source with
  | '$' :: '\x7b' :: body =>
    isEven ((doubleTicks source ++ ['\x60']).length + 1) [1] false
      (doubleTicks body ++ ['\x60'])
  | _ => true

/-- A template that compiles between back-ticks is read on from behind the opening of its hole. -/
theorem exists_lexFrom_of_compile? {source body : List Char}
    (opens : doubleTicks (dropLineBreak source) = '$' :: '\x7b' :: body)
    (compiles : (compile? (String.ofList (rewrite false source))).isSome = true) :
    ∃ tokens, lexFrom ((doubleTicks source ++ ['\x60']).length + 1) [1] false (body ++ ['\x60']) =
        some tokens ∧
      lex? (rewrite false source) = some (.part "" true :: .symbol "\x7b" :: tokens) := by
  obtain ⟨script, compiled⟩ := Option.isSome_iff_exists.mp compiles
  obtain ⟨all, read, _⟩ := Option.bind_eq_some_iff.mp compiled
  have form : rewrite false source = '\x60' :: doubleTicks source ++ ['\x60'] := rfl
  have part : readPart (doubleTicks (dropLineBreak source) ++ ['\x60']) =
      some ([], true, body ++ ['\x60']) := by
    rw [opens]
    exact readPart_hole (body ++ ['\x60'])
  rw [String.toList_ofList, form, lex?_ticked, lexTail_eq, part, Option.bind_some, if_pos rfl]
    at read
  obtain ⟨tokens, run, rfl⟩ := Option.map_eq_some_iff.mp read
  refine ⟨tokens, run, ?_⟩
  rw [form, lex?_ticked, lexTail_eq, part, Option.bind_some, if_pos rfl, run]
  rfl

/-- Without back-ticks, and if its comments and raw texts are balanced, a template that compiles
between back-ticks is a single hole for the scan exactly if scripts read it as one hole that is not
blank. -/
theorem singleHole?_eq_some_iff_isOneHole {source : List Char}
    (compiles : (compile? (String.ofList (rewrite false source))).isSome = true)
    (noBreak : dropLineBreak source = source) (ticksNone : '\x60' ∉ source)
    (even : hasEvenHole source = true) (inner : List Char) :
    singleHole? source = some inner ↔ IsOneHole source inner ∧ Text.isAllBlank inner = false := by
  have ends : ∀ body, source = '$' :: '\x7b' :: body →
      afterHole? ((doubleTicks source ++ ['\x60']).length + 1) [1] false (body ++ ['\x60']) =
        (closeHole? (body ++ ['\x60'])).map Prod.snd := by
    rintro body rfl
    have none : '\x60' ∉ body :=
      fun member => ticksNone (List.mem_cons_of_mem _ (List.mem_cons_of_mem _ member))
    have opens : doubleTicks (dropLineBreak ('$' :: '\x7b' :: body)) = '$' :: '\x7b' :: body :=
      doubleTicks_eq_self ticksNone
    obtain ⟨tokens, run, _⟩ := exists_lexFrom_of_compile? opens compiles
    rw [hasEvenHole, doubleTicks_eq_self none] at even
    exact afterHole?_eq_closeFrom? none run even
  constructor
  · intro single
    obtain ⟨rfl, balanced, shown⟩ := singleHole?_eq_some_iff.mp single
    have closed : closeHole? (inner ++ ['\x7d'] ++ ['\x60']) = some (inner, ['\x60']) :=
      closeHole?_eq_some_iff.mpr ⟨by simp, balanced⟩
    have closes := ends (inner ++ ['\x7d']) rfl
    rw [closed, List.append_assoc] at closes
    refine ⟨⟨['\x60'], ?_, closes, readPart_end⟩, shown⟩
    rw [dropLineBreak_doubleTicks, noBreak, doubleTicks_eq_self ticksNone]
    simpa using readPart_hole (inner ++ '\x7d' :: ['\x60'])
  · rintro ⟨whole, shown⟩
    obtain ⟨text, closes⟩ := whole.source_eq
    rw [noBreak, doubleTicks_eq_self ticksNone] at text
    rw [ends _ text] at closes
    obtain ⟨⟨found, after⟩, closed, same⟩ := Option.map_eq_some_iff.mp closes
    cases same
    obtain ⟨split, balanced⟩ := closeHole?_eq_some_iff.mp closed
    have same : inner = found := by simpa using split
    rw [same] at text shown ⊢
    exact singleHole?_eq_some_iff.mpr ⟨text, balanced, shown⟩

/-! ## The tokens of the hole -/

theorem afterHole?_tick (fuel : Nat) (operand : Bool) :
    afterHole? fuel [depth + 1] operand ['\x60'] = none := by
  cases fuel with
  | zero => rfl
  | succ fuel =>
    rw [afterHole?, if_neg (by simp)]
    rfl

/-- What is left inside of a hole ends in the brace that closes it. -/
theorem exists_left_of_afterHole? {chunk left : List Char}
    (closes : afterHole? fuel [depth + 1] operand left = some ['\x60'])
    (whole : text ++ ['\x7d', '\x60'] = chunk ++ left) :
    ∃ before, left = before ++ ['\x7d', '\x60'] ∧ text = chunk ++ before := by
  rcases List.append_eq_append_iff.mp whole with ⟨gap, rfl, ending⟩ | ⟨gap, rfl, rfl⟩
  · match gap with
    | [] => exact ⟨[], ending.symm, by simp⟩
    | [_] =>
      obtain ⟨_, rfl⟩ : _ ∧ ['\x60'] = left := by simpa using ending
      rw [afterHole?_tick] at closes
      cases closes
    | _ :: _ :: gap =>
      obtain ⟨_, _, _, rfl⟩ : _ ∧ _ ∧ gap = [] ∧ left = [] := by simpa using ending
      cases fuel <;> cases closes
  · exact ⟨gap, rfl, rfl⟩

/-- Alone the text in a hole has the tokens that it has there. -/
theorem lexFrom_alone {tokens : List Token} (ticksNone : '\x60' ∉ text)
    (ends : text.getLast? ≠ some '.')
    (closes : afterHole? fuel [depth + 1] operand (text ++ ['\x7d', '\x60']) = some ['\x60'])
    (lexes : lexFrom fuel [depth + 1] operand (text ++ ['\x7d', '\x60']) = some tokens) :
    ∃ inner, (∀ less, text.length < less → lexFrom less [] operand text = some inner) ∧
      tokens = inner ++ [.symbol "\x7d", .part "" false] := by
  induction fuel generalizing depth operand text tokens with
  | zero => cases lexes
  | succ fuel ih =>
    cases text with
    | nil =>
      cases depth with
      | zero =>
        refine ⟨[], fun less room => ?_, ?_⟩
        · obtain ⟨less, rfl⟩ := Nat.exists_eq_add_of_le' room
          rfl
        · rw [List.nil_append, lexFrom_closeTail] at lexes
          cases fuel with
          | zero => cases lexes
          | succ fuel => cases lexes; rfl
      | succ depth =>
        have later : afterHole? fuel [depth + 1] true ['\x60'] = some ['\x60'] := closes
        rw [afterHole?_tick] at later
        cases later
    | cons char rest =>
      rw [List.cons_append] at closes lexes
      have inside : ¬ (depth = 0 ∧ char = '\x7d') := by
        rintro ⟨rfl, rfl⟩
        have after : some (rest ++ ['\x7d', '\x60']) = some ['\x60'] := closes
        have size := congrArg List.length (Option.some.inj after)
        simp at size
      rw [afterHole?, if_neg (by simpa using inside)] at closes
      rw [lexFrom_cons] at lexes
      obtain ⟨read, one, others⟩ := Option.bind_eq_some_iff.mp lexes
      obtain ⟨later, run, rfl⟩ := Option.map_eq_some_iff.mp others
      rw [one, Option.bind_some] at closes
      have noTick : char ≠ '\x60' := fun tick => ticksNone (tick ▸ List.mem_cons_self)
      obtain ⟨deeper, chunk, holes, whole, _⟩ := holeChunk_of_lexOne one noTick inside
      rw [holes] at closes run
      obtain ⟨left, ending, rfl⟩ := exists_left_of_afterHole? closes whole
      have alone := lexOne_alone one ending noTick inside ends
      rw [ending] at closes run
      have leftNone : '\x60' ∉ left := fun member =>
        ticksNone (List.mem_cons_of_mem _ (List.mem_append_right chunk member))
      have leftEnds : left.getLast? ≠ some '.' := by
        intro last
        rw [← List.cons_append, List.getLast?_append, last] at ends
        exact ends rfl
      obtain ⟨inner, same, rfl⟩ := ih leftNone leftEnds closes run
      refine ⟨read.tokens ++ inner, fun less room => ?_, by simp⟩
      rw [List.length_cons, List.length_append] at room
      obtain ⟨less, rfl⟩ : ∃ fewer, less = fewer + 1 := ⟨less - 1, by omega⟩
      rw [lexFrom_cons, alone, Option.bind_some, same less (by omega)]
      rfl

/-- The hole of a template that compiles between back-ticks has the tokens that its text has alone,
if that holds no back-tick and ends in no full stop. -/
theorem IsOneHole.tokens {source : List Char} (whole : IsOneHole source inner)
    (compiles : (compile? (String.ofList (rewrite false source))).isSome = true)
    (ticksNone : '\x60' ∉ inner) (ends : inner.getLast? ≠ some '.') :
    ∃ tokens, lex? inner = some tokens ∧
      lex? (rewrite false source) = some (tokensAround [] [] tokens) := by
  obtain ⟨text, closes⟩ := whole.source_eq
  obtain ⟨all, run, read⟩ := exists_lexFrom_of_compile? text compiles
  rw [List.append_assoc] at closes run
  obtain ⟨tokens, alone, rfl⟩ := lexFrom_alone ticksNone ends closes run
  exact ⟨tokens, alone _ (Nat.lt_succ_self _), by rw [read]; simp [tokensAround]⟩

end Recast.Script
