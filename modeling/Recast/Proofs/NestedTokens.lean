import Recast.Proofs.InnerText

set_option autoImplicit false

/-!
# The tokens of an expression in a hole

The tokens of an expression are the same when a brace and more text follow it: no token goes on
over the brace that closes the hole, and the braces in between are counted.
-/

namespace Recast

namespace Template

/-- A template as its literals and the expressions in the holes between them. -/
inductive Woven where
  | last (literal : List Char)
  | more (literal inner : List Char) (rest : Woven)

namespace Woven

/-- The text of a template, with its literals and its expressions as they are written. -/
def render (literal inner : List Char → List Char) : Woven → List Char
  | .last text => literal text
  | .more text body rest =>
    literal text ++ '$' :: '\x7b' :: (inner body ++ '\x7d' :: rest.render literal inner)

def source (template : Woven) : List Char :=
  template.render id id

def literals : Woven → List (List Char)
  | .last literal => [literal]
  | .more literal _ rest => literal :: rest.literals

def inners : Woven → List (List Char)
  | .last _ => []
  | .more _ inner rest => inner :: rest.inners

end Woven

end Template

namespace Script

open Template

/-! ## Signs -/

theorem afterStart?_before {sign : List Char} (closingNone : '\x7d' ∉ sign)
    (input more : List Char) :
    Text.afterStart? sign (input ++ '\x7d' :: more) =
      (Text.afterStart? sign input).map (· ++ '\x7d' :: more) := by
  induction sign generalizing input with
  | nil => rfl
  | cons expected sign ih =>
    rw [List.mem_cons, not_or] at closingNone
    cases input with
    | nil =>
      rw [List.nil_append, Text.afterStart?, Text.afterStart?, if_neg (Ne.symm closingNone.1)]
      rfl
    | cons char rest =>
      rw [List.cons_append, Text.afterStart?, Text.afterStart?, ih closingNone.2]
      split
      next => rfl
      next => rfl

theorem leading?_before {signs : List String}
    (closingNone : ∀ sign ∈ signs, '\x7d' ∉ sign.toList.tail) (filled : "" ∉ signs)
    (char : Char) (rest more : List Char) :
    leading? signs (char :: (rest ++ '\x7d' :: more)) =
      (leading? signs (char :: rest)).map fun found => (found.1, found.2 ++ '\x7d' :: more) := by
  induction signs with
  | nil => rfl
  | cons sign signs ih =>
    obtain ⟨first, others⟩ := List.forall_mem_cons.mp closingNone
    rw [List.mem_cons, not_or] at filled
    have same : Text.afterStart? sign.toList (char :: (rest ++ '\x7d' :: more)) =
        (Text.afterStart? sign.toList (char :: rest)).map (· ++ '\x7d' :: more) := by
      cases letters : sign.toList with
      | nil => exact absurd (String.toList_eq_nil_iff.mp letters).symm filled.1
      | cons expected letters =>
        rw [letters, List.tail_cons] at first
        rw [Text.afterStart?, Text.afterStart?, afterStart?_before first]
        split
        next => rfl
        next => rfl
    have later := ih others filled.2
    rw [leading?] at later ⊢
    rw [leading?, List.findSome?_cons, List.findSome?_cons, same]
    cases Text.afterStart? sign.toList (char :: rest) with
    | none => exact later
    | some left => rfl

theorem eq_append_of_leading? {signs : List String} {input rest : List Char} {sign : String}
    (found : leading? signs input = some (sign, rest)) :
    sign ∈ signs ∧ input = sign.toList ++ rest := by
  obtain ⟨front, other, signs, rfl, read, _⟩ := List.findSome?_eq_some_iff.mp found
  obtain ⟨left, read, same⟩ := Option.map_eq_some_iff.mp read
  cases same
  exact ⟨by simp, eq_append_of_afterStart? read⟩

private theorem calm_of_mem_symbols : ∀ sign ∈ symbols,
    (sign = "#\x7b" ∨ sign.toList.tail.all staysOutside = true) ∧ sign.toList ≠ [] := by
  decide +kernel

private theorem closingNone_signs : ∀ sign ∈ symbols ++ deadSymbols, '\x7d' ∉ sign.toList.tail := by
  decide +kernel

theorem notIn?_before (char : Char) (rest more : List Char) :
    notIn? (char :: (rest ++ '\x7d' :: more)) =
      (notIn? (char :: rest)).map (· ++ '\x7d' :: more) := by
  match rest with
  | [] =>
    unfold notIn?
    split
    next same => cases same
    next =>
      split
      next same => cases same
      next => rfl
  | [next] =>
    unfold notIn?
    split
    next same => cases same
    next =>
      split
      next same => cases same
      next => rfl
  | next :: last :: rest =>
    by_cases known : char = '!' ∧ next = 'i' ∧ last = 'n'
    · obtain ⟨rfl, rfl, rfl⟩ := known
      cases rest with
      | nil => rfl
      | cons after rest =>
        rw [List.cons_append, List.cons_append, List.cons_append, notIn?, notIn?]
        split
        next => rfl
        next => rfl
    · have other : ∀ rest, notIn? (char :: next :: last :: rest) = none := by
        intro rest
        unfold notIn?
        split
        next same => cases same; exact absurd ⟨rfl, rfl, rfl⟩ known
        next => rfl
      rw [List.cons_append, List.cons_append, other, other]
      rfl

theorem passes_notIn? {char : Char} {input rest : List Char}
    (found : notIn? (char :: input) = some rest) : Passes input rest := by
  have letters : ∀ rest : List Char, Passes ('i' :: 'n' :: rest) rest :=
    fun rest => ((Passes.refl rest).cons rfl).cons rfl
  unfold notIn? at found
  split at found
  next same =>
    cases same
    split at found
    next =>
      split at found
      next => cases found
      next => cases found; exact letters _
    next => cases found; exact letters _
  next => cases found

theorem head?_before {char : Char} (noClosing : char ≠ '\x7d') (rest more : List Char) :
    (rest ++ '\x7d' :: more).head? = some char ↔ rest.head? = some char := by
  cases rest with
  | nil => simp [Ne.symm noClosing]
  | cons next rest => rfl

/-- Behind its first character a sign, or a number with its minus sign, goes on with plain
characters. -/
theorem passes_lexSign {operand : Bool} {char : Char} {rest left : List Char} {token : Token}
    (noMap : ¬ (char = '#' ∧ rest.head? = some '\x7b'))
    (read : lexSign operand char rest = some (token, left)) : Passes rest left := by
  unfold lexSign at read
  split at read
  next after found =>
    cases read
    exact passes_notIn? found
  next =>
    split at read
    next minus =>
      simp only [Bool.and_eq_true, decide_eq_true_eq] at minus
      obtain ⟨digit, others, rfl⟩ : ∃ digit others, rest = digit :: others := by
        cases rest with
        | nil => cases minus.2
        | cons digit others => exact ⟨digit, others, rfl⟩
      have digits : digit.isDigit = true := minus.2
      exact (passes_lexNumber digits read).cons (staysOutside_of_isDigit digit digits)
    next =>
      split at read
      next => cases read
      next =>
        obtain ⟨⟨sign, _⟩, found, same⟩ := Option.map_eq_some_iff.mp read
        cases same
        obtain ⟨member, whole⟩ := eq_append_of_leading? found
        obtain ⟨calm, filled⟩ := calm_of_mem_symbols sign member
        cases letters : sign.toList with
        | nil => exact absurd letters filled
        | cons first others =>
          rw [letters, List.cons_append] at whole
          cases whole
          refine ⟨others, rfl, ?_⟩
          rcases calm with rfl | calm
          · cases letters
            exact absurd ⟨rfl, rfl⟩ noMap
          · rw [letters] at calm
            exact List.all_eq_true.mp calm

/-- A sign ends before the end of a hole, if the number does that it may begin. -/
theorem lexSign_append {operand : Bool} {char : Char} {rest more : List Char}
    (number : lexSign operand char rest = lexNumber true rest →
      lexNumber true (rest ++ '\x7d' :: more) =
        (lexNumber true rest).map fun found => (found.1, found.2 ++ '\x7d' :: more)) :
    lexSign operand char (rest ++ '\x7d' :: more) =
      (lexSign operand char rest).map fun found => (found.1, found.2 ++ '\x7d' :: more) := by
  have digit : (rest ++ '\x7d' :: more).head?.any Char.isDigit =
      rest.head?.any Char.isDigit := by
    cases rest with
    | nil => rfl
    | cons next rest => rfl
  have dead := @leading?_before deadSymbols
    (fun sign member => closingNone_signs sign (List.mem_append_right _ member)) (by decide +kernel)
    char rest more
  have alive := @leading?_before symbols
    (fun sign member => closingNone_signs sign (List.mem_append_left _ member)) (by decide +kernel)
    char rest more
  unfold lexSign at number ⊢
  rw [notIn?_before, digit, dead, alive, Option.isSome_map]
  cases found : notIn? (char :: rest) with
  | some after => rfl
  | none =>
    rw [found] at number
    dsimp only [Option.map_none] at number ⊢
    split
    next minus =>
      rw [if_pos minus] at number
      exact number rfl
    next =>
      split
      next => rfl
      next =>
        rw [Option.map_map, Option.map_map]
        rfl

theorem lexSign_before {operand : Bool} {char : Char} {rest left : List Char} {token : Token}
    (read : lexSign operand char rest = some (token, left)) (noStop : left ≠ ['.'])
    (more : List Char) : lexSign operand char (rest ++ '\x7d' :: more) =
      some (token, left ++ '\x7d' :: more) := by
  have number : lexSign operand char rest = lexNumber true rest →
      lexNumber true (rest ++ '\x7d' :: more) =
        (lexNumber true rest).map fun found => (found.1, found.2 ++ '\x7d' :: more) := by
    intro same
    rw [read] at same
    rw [lexNumber_before true rest token left same.symm noStop more, ← same]
    rfl
  rw [lexSign_append number, read]
  rfl

/-! ## One token -/

/-- What is read at a place of an expression is read there in a hole too. -/
def ReadsInHole (depth : Nat) (operand : Bool) (char : Char) (rest : List Char) (read : Reading) :
    Prop :=
  ∃ inner, IsInner inner .outside read.rest ∧
    ∀ more, lexOne [depth + 1] operand char (rest ++ '\x7d' :: more) =
      some ⟨read.tokens, [inner + 1], read.operand, read.rest ++ '\x7d' :: more⟩

theorem lexWord_eq (holes : List Nat) (input : List Char) :
    lexWord holes input = (wordToken? (input.takeWhile isNamePart)).map fun token =>
      .single holes (token, input.dropWhile isNamePart) := by
  have left : (input.takeWhile isNamePart ++ input.dropWhile isNamePart).drop
      (input.takeWhile isNamePart).length = input.dropWhile isNamePart := List.drop_left
  rw [List.takeWhile_append_dropWhile] at left
  rw [← left]
  rfl

theorem passes_lexWord {holes : List Nat} {char : Char} {rest : List Char} {read : Reading}
    (starts : isNameStart char = true) (found : lexWord holes (char :: rest) = some read) :
    Passes rest read.rest := by
  rw [lexWord_eq, List.dropWhile_cons_of_pos (isNamePart_of_isNameStart starts)] at found
  obtain ⟨token, _, rfl⟩ := Option.map_eq_some_iff.mp found
  refine ⟨rest.takeWhile isNamePart, List.takeWhile_append_dropWhile.symm, fun char member => ?_⟩
  exact staysOutside_of_isNamePart (List.all_eq_true.mp List.all_takeWhile char member)

/-- A word ends before the end of a hole. -/
theorem lexWord_append (holes : List Nat) (input more : List Char) :
    lexWord holes (input ++ '\x7d' :: more) = (lexWord [] input).map fun read =>
      ⟨read.tokens, holes, read.operand, read.rest ++ '\x7d' :: more⟩ := by
  have letters : (input ++ '\x7d' :: more).takeWhile isNamePart = input.takeWhile isNamePart ∧
      (input ++ '\x7d' :: more).dropWhile isNamePart =
        input.dropWhile isNamePart ++ '\x7d' :: more := by
    induction input with
    | nil => exact ⟨rfl, rfl⟩
    | cons char input ih =>
      obtain ⟨taken, dropped⟩ := ih
      rw [List.cons_append, List.takeWhile_cons, List.takeWhile_cons, List.dropWhile_cons,
        List.dropWhile_cons, taken, dropped]
      cases isNamePart char with
      | true => exact ⟨rfl, rfl⟩
      | false => exact ⟨rfl, rfl⟩
  rw [lexWord_eq, lexWord_eq, letters.1, letters.2, Option.map_map]
  rfl

/-- A letter is a quoted text of one character that does not begin with a quote. -/
theorem lexLetter_eq {holes : List Nat} {input : List Char} {read : Reading}
    (found : lexLetter holes input = some read) :
    ∃ letter left, lexQuoted '\'' (input.length + 1) input = some ([letter], left) ∧
      read = .single holes (.char letter, left) := by
  unfold lexLetter at found
  split at found
  next => cases found
  next =>
    obtain ⟨⟨content, left⟩, quoted, letter⟩ := Option.bind_eq_some_iff.mp found
    split at letter
    next letter single =>
      cases letter
      cases single
      exact ⟨letter, left, quoted, rfl⟩
    next => cases letter

theorem lexLetter_of_quoted {input left : List Char} {letter : Char}
    (filled : input.head? ≠ some '\'')
    (quoted : lexQuoted '\'' (input.length + 1) input = some ([letter], left)) (holes : List Nat) :
    lexLetter holes input = some (.single holes (.char letter, left)) := by
  rw [lexLetter, if_neg filled, quoted]
  rfl

theorem lexLetter_filled {holes : List Nat} {input : List Char} {read : Reading}
    (found : lexLetter holes input = some read) : input.head? ≠ some '\'' := by
  intro quote
  rw [lexLetter, if_pos quote] at found
  cases found

theorem lexLetter_before {depth : Nat} {input : List Char} {read : Reading}
    (alone : lexLetter [] input = some read) (inner : IsInner depth (.quoted '\'') input) :
    IsInner depth .outside read.rest ∧
      ∀ holes more, lexLetter holes (input ++ '\x7d' :: more) =
        some ⟨read.tokens, holes, read.operand, read.rest ++ '\x7d' :: more⟩ := by
  have filled := lexLetter_filled alone
  obtain ⟨letter, left, quoted, rfl⟩ := lexLetter_eq alone
  obtain ⟨outside, before⟩ := lexQuoted_before rfl (by decide) quoted
  refine ⟨outside depth inner, fun holes more => ?_⟩
  have begins := mt (head?_before (by decide) input more).mp filled
  exact lexLetter_of_quoted begins (before _ more (by rw [List.length_append]; omega)) holes

/-- A number sign before a quote or another one begins a raw text. -/
theorem lexOne_number {holes : List Nat} {operand : Bool} {rest : List Char}
    (noMap : rest.head? ≠ some '\x7b')
    (begins : rest.head? = some '"' ∨ rest.head? = some '#') :
    lexOne holes operand '#' rest = lexRaw holes rest := by
  have noMap : decide (rest.head? = some '\x7b') = false := decide_eq_false noMap
  have raw : (decide (rest.head? = some '"') || decide (rest.head? = some '#')) = true := by
    simpa using begins
  rw [lexOne, noMap, raw]
  rfl

/-- A balanced raw text ends before the end of a hole. -/
theorem lexRaw_before {depth : Nat} {input : List Char} {read : Reading}
    (alone : lexRaw [] input = some read) (inner : IsInner depth .outside ('#' :: input)) :
    IsInner depth .outside read.rest ∧
      ∀ holes more, lexRaw holes (input ++ '\x7d' :: more) =
        some ⟨read.tokens, holes, read.operand, read.rest ++ '\x7d' :: more⟩ := by
  obtain ⟨⟨content, left⟩, raw, rfl⟩ := Option.map_eq_some_iff.mp alone
  have balanced : Balanced ('"' :: (content ++ ['"'])) := by
    have calm := inner.calmRaw
    rw [calmRaw, raw, Option.all_some] at calm
    exact isBalanced_iff.mp calm
  obtain ⟨signs, chunk, rfl, known⟩ := exists_rawChunk raw
  refine ⟨(inner.outside rfl).balanced (known.balanced balanced), fun holes more => ?_⟩
  rw [lexRaw, List.append_assoc, known.reads]
  rfl

theorem lexOne_flat {operand : Bool} {char : Char} {rest : List Char} {read : Reading}
    (noTick : char ≠ '\x60') (alone : lexOne [] operand char rest = some read) :
    read.holes = [] := by
  revert alone
  fun_cases lexOne [] operand char rest
  all_goals intro alone
  case case1 | case7 | case8 | case9 | case10 | case12 => cases alone; rfl
  case case2 | case3 | case4 | case11 | case13 =>
    obtain ⟨_, _, rfl⟩ := Option.map_eq_some_iff.mp alone
    rfl
  case case5 =>
    obtain ⟨_, _, _, rfl⟩ := lexLetter_eq alone
    rfl
  case case6 tick => exact absurd tick noTick

theorem lexOne_before {depth : Nat} {operand : Bool} {char : Char} {rest : List Char}
    {read : Reading} (inner : IsInner depth .outside (char :: rest))
    (alone : lexOne [] operand char rest = some read) (noStop : read.rest ≠ ['.']) :
    ReadsInHole depth operand char rest read := by
  revert alone
  fun_cases lexOne [] operand char rest
  all_goals intro alone
  case case1 blank =>
    cases alone
    have calm : staysOutside char = true := staysOutside_of rfl blank
    refine ⟨depth, inner.outside calm, fun more => ?_⟩
    rw [lexOne, if_pos blank]
    rfl
  case case2 noBlank digit =>
    obtain ⟨⟨token, left⟩, number, rfl⟩ := Option.map_eq_some_iff.mp alone
    have passes := (passes_lexNumber digit number).cons (staysOutside_of_isDigit char digit)
    refine ⟨depth, passes.inner inner, fun more => ?_⟩
    have before := lexNumber_before false _ token left number noStop more
    rw [lexOne, if_neg noBlank, if_pos digit, ← List.cons_append, before]
    rfl
  case case3 noBlank noDigit starts =>
    have passes := (passes_lexWord starts alone).cons
      (staysOutside_of_isNamePart (isNamePart_of_isNameStart starts))
    refine ⟨depth, passes.inner inner, fun more => ?_⟩
    rw [lexOne, if_neg noBlank, if_neg noDigit, if_pos starts, ← List.cons_append, lexWord_append,
      alone]
    rfl
  case case4 noBlank noDigit noStart quote =>
    obtain ⟨⟨content, left⟩, quoted, rfl⟩ := Option.map_eq_some_iff.mp alone
    obtain ⟨outside, before⟩ := lexQuoted_before rfl (by decide) quoted
    subst quote
    refine ⟨depth, outside depth (inner.quoted rfl), fun more => ?_⟩
    rw [lexOne, if_neg noBlank, if_neg noDigit, if_neg noStart, if_pos rfl,
      before _ more (by rw [List.length_append]; omega)]
    rfl
  case case5 noBlank noDigit noStart noText quote =>
    subst quote
    obtain ⟨outside, before⟩ := lexLetter_before alone (inner.quoted rfl)
    refine ⟨depth, outside, fun more => ?_⟩
    rw [lexOne, if_neg noBlank, if_neg noDigit, if_neg noStart, if_neg noText, if_pos rfl, before]
  case case6 noBlank noDigit noStart noText noLetter tick =>
    exact absurd (tick ▸ List.mem_cons_self) inner.noTick
  case case7 comment =>
    simp only [Bool.and_eq_true, decide_eq_true_eq] at comment
    obtain ⟨rfl, slash⟩ := comment
    exact absurd slash inner.no_comment.1
  case case8 comment =>
    simp only [Bool.and_eq_true, decide_eq_true_eq] at comment
    obtain ⟨rfl, star⟩ := comment
    exact absurd star inner.no_comment.2
  case case9 opening =>
    subst opening
    cases alone
    exact ⟨depth + 1, inner.opening, fun more => rfl⟩
  case case10 map =>
    simp only [Bool.and_eq_true, decide_eq_true_eq] at map
    obtain ⟨rfl, opening⟩ := map
    cases rest with
    | nil => cases opening
    | cons next rest =>
      cases opening
      cases alone
      exact ⟨depth + 1, (inner.outside rfl).opening, fun more => rfl⟩
  case case11 raw =>
    simp only [Bool.and_eq_true, Bool.or_eq_true, decide_eq_true_eq] at raw
    obtain ⟨rfl, begins⟩ := raw
    obtain ⟨outside, before⟩ := lexRaw_before alone inner
    refine ⟨depth, outside, fun more => ?_⟩
    have noMap : rest.head? ≠ some '\x7b' := by
      rintro first
      simp [first] at begins
    have noMapBefore := mt (head?_before (by decide) rest more).mp noMap
    have beginsBefore : (rest ++ '\x7d' :: more).head? = some '"' ∨
        (rest ++ '\x7d' :: more).head? = some '#' :=
      begins.imp (head?_before (by decide) rest more).mpr (head?_before (by decide) rest more).mpr
    rw [lexOne_number noMapBefore beginsBefore, before]
  case case12 closing =>
    subst closing
    cases alone
    obtain ⟨outer, rfl, later⟩ := inner.closing
    exact ⟨outer, later, fun more => rfl⟩
  case case13 noBlank noDigit noStart noText noLetter noTick noLine noBlock noOpening noMap noRaw
      noClosing =>
    obtain ⟨⟨token, left⟩, sign, rfl⟩ := Option.map_eq_some_iff.mp alone
    have calm : staysOutside char = true := by
      simp [staysOutside, isQuote, noText, noLetter, noTick, noOpening, noClosing]
    have passes := (passes_lexSign (by simpa using noMap) sign).cons calm
    refine ⟨depth, passes.inner inner, fun more => ?_⟩
    have before := lexSign_before sign noStop more
    simp only [lexOne, head?_before (by decide : '/' ≠ '\x7d'),
      head?_before (by decide : '*' ≠ '\x7d'), head?_before (by decide : '\x7b' ≠ '\x7d'),
      head?_before (by decide : '"' ≠ '\x7d'), head?_before (by decide : '#' ≠ '\x7d'), before]
    rw [if_neg noBlank, if_neg noDigit, if_neg noStart, if_neg noText, if_neg noLetter,
      if_neg noTick, if_neg noLine, if_neg noBlock, if_neg noOpening, if_neg noMap, if_neg noRaw,
      if_neg noClosing]
    rfl

/-! ## All tokens -/

theorem lexFrom_stop {fuel : Nat} {operand : Bool} {tokens : List Token}
    (read : lexFrom fuel [] operand ['.'] = some tokens) : tokens = [.symbol "."] := by
  cases fuel with
  | zero => cases read
  | succ fuel =>
    have one : lexOne [] operand '.' [] = some ⟨[.symbol "."], [], false, []⟩ := by
      simp [lexOne, isNameStart, lexSign, notIn?, leading?, deadSymbols, symbols, Text.afterStart?,
        Reading.single, Token.endsOperand, Text.isBlank]
    rw [lexFrom_cons, one, Option.bind_some] at read
    cases fuel with
    | zero => cases read
    | succ fuel => cases read; rfl

/-- The tokens of an expression are read up to the brace that closes its hole, in as many steps as
they take alone. -/
theorem lexFrom_before {depth fuel : Nat} {operand : Bool} {input : List Char}
    {tokens : List Token} (inner : IsInner depth .outside input)
    (alone : lexFrom fuel [] operand input = some tokens)
    (noStop : tokens.getLast? ≠ some (.symbol ".")) :
    ∃ steps flag, steps < fuel ∧ ∀ left more,
      lexFrom (left + steps) [depth + 1] operand (input ++ '\x7d' :: more) =
        (lexFrom left [1] flag ('\x7d' :: more)).map (tokens ++ ·) := by
  induction fuel generalizing depth operand input tokens with
  | zero => cases alone
  | succ fuel ih =>
    cases input with
    | nil =>
      cases alone
      obtain rfl := inner.depth_eq
      exact ⟨0, operand, fuel.succ_pos, fun left more => by simp⟩
    | cons char rest =>
      rw [lexFrom_cons] at alone
      obtain ⟨read, one, others⟩ := Option.bind_eq_some_iff.mp alone
      obtain ⟨later, found, rfl⟩ := Option.map_eq_some_iff.mp others
      have noStopLater : later.getLast? ≠ some (.symbol ".") := by
        intro last
        rw [List.getLast?_append, last] at noStop
        exact noStop rfl
      have flat := lexOne_flat (fun tick => inner.noTick (tick ▸ List.mem_cons_self)) one
      rw [flat] at found
      have noStopHere : read.rest ≠ ['.'] := by
        intro point
        rw [point] at found
        rw [lexFrom_stop found] at noStopLater
        exact noStopLater rfl
      obtain ⟨nested, outside, before⟩ := lexOne_before inner one noStopHere
      obtain ⟨steps, flag, fewer, run⟩ := ih outside found noStopLater
      refine ⟨steps + 1, flag, Nat.succ_lt_succ fewer, fun left more => ?_⟩
      rw [← Nat.add_assoc, List.cons_append, lexFrom_cons, before more, Option.bind_some,
        run left more, Option.map_map]
      congr 1
      funext tokens
      exact (List.append_assoc _ _ _).symm

/-! ## The whole template -/

theorem lexTail_last {text : List Char} (plain : IsAround text) (fuel : Nat) :
    lexTail (fuel + 1) (doubleTicks text ++ ['\x60']) =
      some [.part (String.ofList text) false] := by
  have read := readPart_literal plain.opensNone plain.returnsNone
    (show StopsPart ['\x60'] by simp [StopsPart]) (fun _ opens => by simp at opens)
  rw [readPart_end] at read
  rw [lexTail_eq, read]
  simp [prependPart, lexFrom]

/-- The tokens of a template whose expressions are read on their own. A backslash before a hole
would hide it, and a full stop at the end of an expression goes on behind it. -/
inductive WovenTokens : Woven → List Token → Prop where
  | last {literal : List Char} : IsAround literal →
      WovenTokens (.last literal) [.part (String.ofList literal) false]
  | more {literal inner : List Char} {rest : Woven} {tokens others : List Token} :
      IsAround literal → literal.getLast? ≠ some '\\' → IsInner 0 .outside inner →
      lex? inner = some tokens → tokens.getLast? ≠ some (.symbol ".") → WovenTokens rest others →
      WovenTokens (.more literal inner rest)
        (.part (String.ofList literal) true :: .symbol "\x7b" ::
          (tokens ++ .symbol "\x7d" :: others))

section

variable {template : Woven} {tokens : List Token}

theorem lexTail_woven (known : WovenTokens template tokens) (fuel : Nat)
    (enough : (template.render doubleTicks id).length < fuel) :
    lexTail fuel (template.render doubleTicks id ++ ['\x60']) = some tokens := by
  induction known generalizing fuel with
  | last plain =>
    obtain ⟨fuel, rfl⟩ := Nat.exists_eq_add_of_le' (Nat.lt_of_le_of_lt (Nat.zero_le _) enough)
    exact lexTail_last plain fuel
  | @more literal inner rest tokens others plain unescaped isInner alone noStop _ ih =>
    obtain ⟨steps, flag, fewer, run⟩ := lexFrom_before isInner alone noStop
    rw [Woven.render, List.length_append, List.length_cons, List.length_cons, List.length_append,
      List.length_cons, id_eq] at enough
    obtain ⟨left, rfl, room⟩ : ∃ left, fuel = left + 1 + steps ∧
        (rest.render doubleTicks id).length < left :=
      ⟨fuel - 1 - steps, by omega, by omega⟩
    have read := readPart_literal plain.opensNone plain.returnsNone
      (show StopsPart ('$' :: '\x7b' ::
        (inner ++ '\x7d' :: (rest.render doubleTicks id ++ ['\x60']))) by simp [StopsPart])
      (fun last => absurd last unescaped)
    have text : (Woven.more literal inner rest).render doubleTicks id ++ ['\x60'] =
        doubleTicks literal ++
          '$' :: '\x7b' :: (inner ++ '\x7d' :: (rest.render doubleTicks id ++ ['\x60'])) := by
      simp [Woven.render]
    rw [readPart_hole] at read
    rw [text, lexTail_eq, read]
    simp only [Option.map_some, Option.bind_some, prependPart, if_true, List.append_nil]
    rw [run (left + 1), lexFrom_closeTail, ih left room]
    rfl

theorem doubleTicks_source (template : Woven) :
    doubleTicks template.source = template.render doubleTicks doubleTicks := by
  induction template with
  | last literal => rfl
  | more literal inner rest ih =>
    have opening : ∀ rest,
        doubleTicks ('$' :: '\x7b' :: rest) = '$' :: '\x7b' :: doubleTicks rest := fun rest => rfl
    have closing : ∀ rest, doubleTicks ('\x7d' :: rest) = '\x7d' :: doubleTicks rest :=
      fun rest => rfl
    rw [Woven.source] at ih ⊢
    rw [Woven.render, Woven.render, id_eq, id_eq, doubleTicks_append, opening, doubleTicks_append,
      closing, ih]

/-- Expressions without back-ticks are written as they are. -/
theorem doubleTicks_source_of_ticksNone (ticksNone : ∀ inner ∈ template.inners, '\x60' ∉ inner) :
    doubleTicks template.source = template.render doubleTicks id := by
  rw [doubleTicks_source]
  induction template with
  | last literal => rfl
  | more literal inner rest ih =>
    have others := ih fun inner member => ticksNone inner (List.mem_cons_of_mem _ member)
    rw [Woven.render, Woven.render, others,
      doubleTicks_eq_self (ticksNone inner List.mem_cons_self), id_eq]

theorem WovenTokens.ticksNone (known : WovenTokens template tokens) :
    ∀ inner ∈ template.inners, '\x60' ∉ inner := by
  induction known with
  | last => exact fun inner member => absurd member List.not_mem_nil
  | more _ _ isInner _ _ _ ih => exact List.forall_mem_cons.mpr ⟨isInner.noTick, ih⟩

theorem WovenTokens.noReturn (known : WovenTokens template tokens) :
    template.source.head? ≠ some '\r' := by
  have literal : ∀ text rest, IsAround text → (text ++ '$' :: rest).head? ≠ some '\r' := by
    intro text rest plain first
    cases text with
    | nil => cases first
    | cons char text =>
      cases first
      exact plain.returnsNone List.mem_cons_self
  cases known with
  | last plain => exact fun first => plain.returnsNone (List.mem_of_mem_head? first)
  | more plain => exact literal _ _ plain

/-- A template between back-ticks is read as its literals and the tokens that its expressions have
alone. -/
theorem lex?_woven (known : WovenTokens template tokens)
    (noBreak : template.source.head? ≠ some '\n') :
    lex? ('\x60' :: doubleTicks template.source ++ ['\x60']) = some tokens := by
  have same := doubleTicks_source_of_ticksNone known.ticksNone
  rw [lex?_doubleTicks noBreak known.noReturn, same]
  exact lexTail_woven known _ (by simp only [List.length_append]; omega)

end

/-- The tokens of a text with one hole. -/
def tokensAround (front text : List Char) (tokens : List Token) : List Token :=
  .part (String.ofList front) true :: .symbol "\x7b" ::
    (tokens ++ [.symbol "\x7d", .part (String.ofList text) false])

/-- A text with one hole is read as its two parts and the tokens of the expression. -/
theorem lex?_around {front text inner : List Char} {tokens : List Token} (before : IsAround front)
    (after : IsAround text) (unescaped : front.getLast? ≠ some '\\')
    (noBreak : front.head? ≠ some '\n') (isInner : IsInner 0 .outside inner)
    (alone : lex? inner = some tokens) (noStop : tokens.getLast? ≠ some (.symbol ".")) :
    lex? ('\x60' :: doubleTicks (around front inner text) ++ ['\x60']) =
      some (tokensAround front text tokens) := by
  have begins : (around front inner text).head? ≠ some '\n' := by
    intro first
    cases front with
    | nil => cases first
    | cons char front => exact noBreak first
  exact lex?_woven (.more before unescaped isInner alone noStop (.last after)) begins

end Script

end Recast
