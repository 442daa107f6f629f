import Recast.Proofs.FieldCopies
import Recast.Proofs.NestedTokens

set_option autoImplicit false

/-!
# Names that are bound

A field is bound if its name is a word of letters, digits and underscores. A hole with this word
reads the field, unless the word means something else to scripts: a truth value is a constant, and
any other word of the grammar, or a word that begins with no letter, is no expression.
-/

namespace Recast

namespace Script

open Template (doubleTicks)
open Recast.Script.Parser

variable {name : String} {word : List Char} {token : Token} {functions : List Function}

/-! ## One word as tokens -/

theorem wordToken?_cases (read : wordToken? word = some token) :
    token = .symbol "_" ∨ (∃ known ∈ keywords, token = .keyword known) ∨
      (∃ known ∈ reservedWords, token = .reserved known) ∨
        token = .name (String.ofList word) ∧ isName word = true := by
  unfold wordToken? at read
  dsimp only at read
  split at read
  next underscore =>
    cases read
    exact .inl (by rw [underscore])
  next =>
    split at read
    next known =>
      cases read
      exact .inr (.inl ⟨_, List.contains_iff_mem.mp known, rfl⟩)
    next =>
      split at read
      next known =>
        cases read
        exact .inr (.inr (.inl ⟨_, List.contains_iff_mem.mp known, rfl⟩))
      next =>
        split at read
        next isName =>
          cases read
          exact .inr (.inr (.inr ⟨rfl, isName⟩))
        next => cases read

/-- A bound name in a hole, as a text between back-ticks. -/
theorem lex?_tickedName (bindable : isBindable name = true) :
    lex? ('\x60' :: doubleTicks (Placeholder.token name).toList ++ ['\x60']) =
      (wordToken? name.toList).map fun token => tokensAround [] [] [token] := by
  obtain ⟨first, word, written, starts, letters⟩ := exists_word_of_isBindable bindable
  have ticksNone : '\x60' ∉ (Placeholder.token name).toList := by
    rw [Template.toList_token, written]
    intro member
    simp only [List.mem_cons, List.mem_append, List.not_mem_nil, or_false] at member
    rcases member with same | same | (rfl | member) | same
    · cases same
    · cases same
    · cases starts
    · cases letters _ (List.mem_cons_of_mem _ member)
    · cases same
  have stops : StopsWord ['\x7d', '\x60'] := by
    intro char first
    cases first
    rfl
  have text : (Placeholder.token name).toList ++ ['\x60'] =
      '$' :: '\x7b' :: (first :: word ++ ['\x7d', '\x60']) := by
    rw [Template.toList_token, written]
    simp
  have last : ∀ fuel, lexTail (fuel + 1) ['\x60'] = some [.part "" false] := fun fuel => rfl
  obtain ⟨fuel, room⟩ : ∃ fuel, ((Placeholder.token name).toList ++ ['\x60']).length + 1 =
      fuel + 1 + 1 + 1 := by
    refine ⟨word.length + 3, ?_⟩
    rw [text]
    simp
  rw [lex?_doubleTicks (by simp [Template.toList_token]) (by simp [Template.toList_token]),
    doubleTicks_eq_self ticksNone, room, text, lexTail_eq, readPart_hole, Option.bind_some,
    if_pos rfl, lexFrom_parts starts letters _ _ _ stops, written]
  cases wordToken? (first :: word) with
  | none => rfl
  | some token =>
    rw [Option.bind_some, lexFrom_closeTail, last]
    rfl

/-! ## Names among tokens -/

/-- The token of a number is no name. -/
theorem ne_name_of_lexNumber {negative : Bool} {input rest : List Char}
    (read : lexNumber negative input = some (token, rest)) (name : String) :
    token ≠ .name name := by
  have decimal : lexDecimal negative input = some (token, rest) → token ≠ .name name := by
    rw [lexDecimal_eq]
    intro read
    obtain ⟨_, known, same⟩ := Option.map_eq_some_iff.mp read
    cases same
    unfold decimalToken? at known
    generalize (if negative then ['-'] else []) = sign at known
    dsimp only at known
    generalize (if negative = true then _ else _ : Int) = number at known
    split at known
    next => cases known
    next =>
      split at known
      next =>
        cases known
        exact Token.noConfusion
      next =>
        obtain ⟨_, _, rfl⟩ := Option.map_eq_some_iff.mp known
        exact Token.noConfusion
  unfold lexNumber at read
  split at read
  next =>
    split at read
    next =>
      rw [lexBase_eq] at read
      dsimp only at read
      split at read
      next => cases read
      next =>
        cases read
        exact Token.noConfusion
    next => exact decimal read
  next => exact decimal read

theorem ne_name_of_lexSign {operand : Bool} {char : Char} {input rest : List Char}
    (read : lexSign operand char input = some (token, rest)) (name : String) :
    token ≠ .name name := by
  unfold lexSign at read
  split at read
  next =>
    cases read
    exact Token.noConfusion
  next =>
    split at read
    next => exact ne_name_of_lexNumber read name
    next =>
      split at read
      next => cases read
      next =>
        obtain ⟨_, _, same⟩ := Option.map_eq_some_iff.mp read
        cases same
        exact Token.noConfusion

theorem name_notMem_lexText {holes : List Nat} {input : List Char} {read : Reading}
    (found : lexText holes input = some read) (name : String) : .name name ∉ read.tokens := by
  obtain ⟨⟨content, more, rest⟩, _, same⟩ := Option.map_eq_some_iff.mp found
  cases more with
  | true =>
    cases same
    simp
  | false =>
    cases same
    simp

theorem isBindable_of_lexWord {holes : List Nat} {char : Char} {rest : List Char} {read : Reading}
    (starts : isNameStart char = true) (found : lexWord holes (char :: rest) = some read)
    (member : .name name ∈ read.tokens) : isBindable name = true := by
  obtain ⟨token, known, rfl⟩ := Option.map_eq_some_iff.mp found
  obtain rfl : Token.name name = token := List.mem_singleton.mp member
  have letters : ∀ letter ∈ rest.takeWhile isNamePart, isNamePart letter = true :=
    fun letter within => List.all_eq_true.mp List.all_takeWhile letter within
  rw [List.takeWhile_cons_of_pos (isNamePart_of_isNameStart starts)] at known
  rcases wordToken?_cases known with same | ⟨_, _, same⟩ | ⟨_, _, same⟩ | ⟨same, _⟩
  · cases same
  · cases same
  · cases same
  · cases same
    rw [isBindable, String.toList_ofList]
    dsimp only
    rw [Bool.and_eq_true, List.all_eq_true]
    exact ⟨starts, letters⟩

theorem isBindable_of_lexOne {holes : List Nat} {operand : Bool} {char : Char} {rest : List Char}
    {read : Reading} (found : lexOne holes operand char rest = some read)
    (member : .name name ∈ read.tokens) : isBindable name = true := by
  revert found
  fun_cases lexOne holes operand char rest
  all_goals intro found
  case case1 | case7 | case8 =>
    cases found
    cases member
  case case2 =>
    obtain ⟨⟨token, left⟩, number, rfl⟩ := Option.map_eq_some_iff.mp found
    exact absurd (List.mem_singleton.mp member).symm (ne_name_of_lexNumber number name)
  case case3 noBlank noDigit starts => exact isBindable_of_lexWord starts found member
  case case4 =>
    obtain ⟨_, _, rfl⟩ := Option.map_eq_some_iff.mp found
    cases List.mem_singleton.mp member
  case case5 =>
    unfold lexLetter at found
    split at found
    next => cases found
    next =>
      obtain ⟨_, _, letter⟩ := Option.bind_eq_some_iff.mp found
      split at letter
      next =>
        cases letter
        cases List.mem_singleton.mp member
      next => cases letter
  case case6 => exact absurd member (name_notMem_lexText found name)
  case case9 | case10 =>
    cases found
    cases holes <;> cases List.mem_singleton.mp member
  case case11 =>
    obtain ⟨_, _, rfl⟩ := Option.map_eq_some_iff.mp found
    cases List.mem_singleton.mp member
  case case12 =>
    unfold lexClosing at found
    split at found
    next =>
      cases found
      cases List.mem_singleton.mp member
    next =>
      obtain ⟨text, inside, rfl⟩ := Option.map_eq_some_iff.mp found
      rcases List.mem_cons.mp member with same | later
      · cases same
      · exact absurd later (name_notMem_lexText inside name)
    next =>
      cases found
      cases List.mem_singleton.mp member
  case case13 =>
    obtain ⟨⟨token, left⟩, sign, rfl⟩ := Option.map_eq_some_iff.mp found
    exact absurd (List.mem_singleton.mp member).symm (ne_name_of_lexSign sign name)

/-- A name that a script mentions is one that a field can be bound to. -/
theorem isBindable_of_lexFrom {fuel : Nat} {holes : List Nat} {operand : Bool}
    {input : List Char} {tokens : List Token}
    (read : lexFrom fuel holes operand input = some tokens) (member : .name name ∈ tokens) :
    isBindable name = true := by
  induction fuel generalizing holes operand input tokens with
  | zero => cases read
  | succ fuel ih =>
    cases input with
    | nil =>
      cases holes with
      | nil =>
        cases read
        cases member
      | cons count holes => cases read
    | cons char rest =>
      rw [lexFrom_cons] at read
      obtain ⟨found, one, others⟩ := Option.bind_eq_some_iff.mp read
      obtain ⟨later, run, rfl⟩ := Option.map_eq_some_iff.mp others
      rcases List.mem_append.mp member with here | there
      · exact isBindable_of_lexOne one here
      · exact ih run there

/-! ## Names that are variables -/

private theorem free_of_wordToken? (read : wordToken? name.toList = some (.name name)) :
    name ∉ keywords ∧ name ∉ reservedWords := by
  unfold wordToken? at read
  rw [String.ofList_toList] at read
  dsimp only at read
  split at read
  next => cases read
  next =>
    split at read
    next => cases read
    next noKeyword =>
      split at read
      next => cases read
      next noReserved =>
        exact ⟨fun known => noKeyword (List.contains_iff_mem.mpr known),
          fun known => noReserved (List.contains_iff_mem.mpr known)⟩

/-- A word that can be bound is a variable if it is no word of the grammar and its first character
other than an underscore is a letter. -/
theorem isVariable_iff : IsVariable name ↔ isBindable name = true ∧ name ∉ keywords ∧
    name ∉ reservedWords ∧ isName name.toList = true := by
  constructor
  · intro isVariable
    obtain ⟨noKeyword, noReserved⟩ := free_of_wordToken? isVariable.token
    exact ⟨isVariable.isBindable, noKeyword, noReserved, isName_of_wordToken? isVariable.token⟩
  · rintro ⟨bindable, noKeyword, noReserved, isName⟩
    obtain ⟨first, word, written, _, letters⟩ := exists_word_of_isBindable bindable
    refine ⟨by rwa [written], ?_⟩
    have noUnderscore : name ≠ "_" := by
      rintro rfl
      cases isName
    rw [wordToken?_eq noKeyword noReserved, if_neg noUnderscore, if_pos isName]

/-- The words that a script reads as one variable. -/
theorem lex?_eq_name_iff : lex? name.toList = some [.name name] ↔ IsVariable name := by
  constructor
  · intro read
    have bindable := isBindable_of_lexFrom read List.mem_cons_self
    obtain ⟨first, word, written, _, letters⟩ := exists_word_of_isBindable bindable
    rw [lex?_bindable bindable] at read
    obtain ⟨token, known, same⟩ := Option.map_eq_some_iff.mp read
    cases same
    exact ⟨by rwa [written], known⟩
  · exact lex?_variable

/-! ## One word as an expression -/

/-- The expression that a word is by itself, if it is one. -/
def wordExpr? : Token → Option Expr
  | .name name => some (.variable name)
  | .keyword "true" => some (.constant (.bool true))
  | .keyword "false" => some (.constant (.bool false))
  | _ => none

variable {rest : List Token}

theorem parsePrimary_stop (fuel level : Nat) (stops : StopsExpr rest) :
    parsePrimary fuel .hole level ⟨rest, functions⟩ = none := by
  cases fuel with
  | zero => rw [parsePrimary]; rfl
  | succ fuel =>
    rw [parsePrimary]
    cases rest with
    | nil => rfl
    | cons token rest =>
      rcases stops token rfl with rfl | rfl <;> rfl

theorem bind_deeper_none {α : Type} {level : Nat} {next : Nat → Parser α} {pending : Pending}
    (failed : next (level + 1) pending = none) : (deeper level >>= next) pending = none := by
  by_cases room : level < 64
  · rw [bind_some (deeper_of_lt room _)]
    exact failed
  · exact bind_none (by rw [deeper, maxLevel, if_neg room]; rfl)

theorem parseExpr_stop (fuel level : Nat) (stops : StopsExpr rest) :
    parseExpr fuel .hole level ⟨rest, functions⟩ = none := by
  have chain : ∀ fuel level, parseChain fuel .hole level ⟨rest, functions⟩ = none := by
    intro fuel level
    cases fuel with
    | zero => rw [parseChain]; rfl
    | succ fuel =>
      rw [parseChain]
      exact bind_none (parsePrimary_stop fuel level stops)
  have unary : ∀ fuel level, parseUnary fuel .hole level ⟨rest, functions⟩ = none := by
    intro fuel level
    cases fuel with
    | zero => rw [parseUnary]; rfl
    | succ fuel =>
      rw [parseUnary, bind_some (peek?_eq _)]
      cases rest with
      | nil => exact chain fuel level
      | cons token rest =>
        rcases stops token rfl with rfl | rfl <;> exact chain fuel level
  cases fuel with
  | zero => rw [parseExpr]; rfl
  | succ fuel =>
    rw [parseExpr]
    exact bind_deeper_none (bind_none (unary fuel (level + 1)))

theorem expect_of_stopsExpr (stops : StopsExpr rest) :
    expect "(" ⟨rest, functions⟩ = none := by
  rw [expect, bind_some (accept_of_stopsExpr stops)]
  rfl

/-- A word is read as its expression, if it is one, before the end of its brackets. -/
theorem parsePrimary_word (read : wordToken? word = some token) (fuel level : Nat)
    (stops : StopsExpr rest) :
    parsePrimary (fuel + 1) .hole level ⟨token :: rest, functions⟩ =
      (wordExpr? token).map (·, ⟨rest, functions⟩) := by
  rw [parsePrimary, bind_some (peek?_eq _)]
  rcases wordToken?_cases read with rfl | ⟨keyword, known, rfl⟩ | ⟨reserved, _, rfl⟩ | ⟨rfl, _⟩
  · rfl
  · by_cases choice : keyword = "if"
    · subst choice
      show parseWord fuel .hole level "if" ⟨rest, functions⟩ = none
      cases fuel with
      | zero => rw [parseWord]; rfl
      | succ fuel =>
        rw [parseWord]
        cases fuel with
        | zero => rw [parseChoice]; rfl
        | succ fuel =>
          rw [parseChoice]
          exact bind_deeper_none (bind_none (parseExpr_stop fuel (level + 1) stops))
    · by_cases selection : keyword = "switch"
      · subst selection
        show parseWord fuel .hole level "switch" ⟨rest, functions⟩ = none
        cases fuel with
        | zero => rw [parseWord]; rfl
        | succ fuel =>
          rw [parseWord]
          cases fuel with
          | zero => rw [parseSelect]; rfl
          | succ fuel =>
            rw [parseSelect]
            exact bind_deeper_none (bind_none (parseExpr_stop fuel (level + 1) stops))
      · simp only [keywords, List.mem_cons, List.not_mem_nil, or_false] at known
        rcases known with rfl | rfl | rfl | rfl | rfl | rfl | rfl | rfl | rfl | rfl | rfl | rfl |
          rfl | rfl | rfl | rfl | rfl | rfl | rfl | rfl | rfl | rfl | rfl | rfl
        all_goals first | rfl | contradiction
  · dsimp only [List.head?_cons]
    rw [bind_some (skip_cons _ _)]
    by_cases self : reserved = "this"
    · rw [if_pos self]
      rfl
    · rw [if_neg self]
      cases callableWords.contains reserved with
      | false => rfl
      | true =>
        have allowed : ensure true ⟨rest, functions⟩ = some ((), ⟨rest, functions⟩) := rfl
        rw [bind_some allowed]
        exact bind_none (expect_of_stopsExpr stops)
  · dsimp only [List.head?_cons]
    rw [bind_some (skip_cons _ _), bind_some (accept_of_stopsExpr stops)]
    rfl

theorem parseExpr_word (read : wordToken? word = some token) (fuel : Nat) {level : Nat}
    (room : level < 64) (stops : StopsExpr rest) :
    parseExpr (fuel + 4) .hole level ⟨token :: rest, functions⟩ =
      (wordExpr? token).map (·, ⟨rest, functions⟩) := by
  have primary : parsePrimary (fuel + 1) .hole (level + 1) ⟨token :: rest, functions⟩ =
      (wordExpr? token).map (·, ⟨rest, functions⟩) :=
    parsePrimary_word read fuel (level + 1) stops
  have noSign : ∀ sign ∈ ["-", "+", "!"], token ≠ .symbol sign := by
    intro sign known same
    subst same
    rcases wordToken?_cases read with same | ⟨_, _, same⟩ | ⟨_, _, same⟩ | ⟨same, _⟩
    · cases same
      revert known
      decide
    · cases same
    · cases same
    · cases same
  refine parseExpr_chain (fuel + 1) room noSign stops ?_
  cases found : wordExpr? token with
  | none =>
    rw [found] at primary
    rw [parseChain]
    exact bind_none primary
  | some expr =>
    rw [found] at primary
    exact parseChain_alone fuel (level + 1) stops primary

theorem parse?_word (read : wordToken? word = some token) :
    parse? [token] = (wordExpr? token).map (⟨·, []⟩) :=
  parse?_eq (parseExpr_word read 76 (by decide) stopsExpr_nil)

/-- A word in a hole is the only segment of a text. -/
theorem parse?_tickedWord (read : wordToken? word = some token) :
    parse? (tokensAround [] [] [token]) = (wordExpr? token).map (⟨.joined [·], []⟩) := by
  have closes : StopsExpr [.symbol "\x7d", .part "" false] := by
    intro token first
    exact Or.inl (Option.some.inj first).symm
  have parsed : parse? (tokensAround [] [] [token]) =
      ((wordExpr? token).map fun expr => .joined [expr]).map (⟨·, []⟩) := by
    apply parse?_part
    intro fuel enough
    obtain ⟨fuel, rfl⟩ : ∃ left, fuel = left + 7 := ⟨fuel - 7, by omega⟩
    have block : parseBlock (fuel + 6) .hole 2
        ⟨.symbol "\x7b" :: ([token] ++ .symbol "\x7d" :: [.part "" false]), []⟩ =
          (wordExpr? token).map (·, ⟨[.part (String.ofList []) false], []⟩) :=
      parseBlock_expr (by decide) (parseExpr_word read fuel (by decide) closes)
    have segments : parseSegments (fuel + 7) .hole 2
        ⟨.symbol "\x7b" :: ([token] ++ .symbol "\x7d" :: [.part "" false]), []⟩ =
          ((wordExpr? token).map ([·])).map (·, ⟨[], []⟩) := by
      rw [parseSegments_step block]
      cases wordExpr? token <;> rfl
    rw [show _ = _ from parsePrimary_parts [] (by decide) segments]
    cases found : wordExpr? token with
    | none => rfl
    | some expr =>
      have filled : isEmptyText expr = false := by
        unfold wordExpr? at found
        split at found
        all_goals cases found
        all_goals rfl
      simp [literalSegment, joinedExpr, filled]
  rw [Option.map_map] at parsed
  exact parsed

/-! ## One word as a script -/

/-- The script of a word in a hole: its expression, or a text with it. -/
def wordScript (typecast : Bool) (expr : Expr) : Compiled :=
  ⟨(if typecast then expr else .joined [expr]).fold, []⟩

theorem compile?_word (bindable : isBindable name = true) (typecast : Bool) :
    compile? (String.ofList (Template.rewrite typecast (Placeholder.token name).toList)) =
      ((wordToken? name.toList).bind wordExpr?).map (wordScript typecast) := by
  rw [compile?, String.toList_ofList]
  cases typecast with
  | true =>
    rw [Template.rewrite, if_pos rfl, Template.singleHole?_bindable bindable]
    dsimp only [bind, Option.bind]
    rw [lex?_bindable bindable]
    cases read : wordToken? name.toList with
    | none => rfl
    | some token =>
      dsimp only [Option.map_some]
      rw [parse?_word read]
      cases wordExpr? token <;> rfl
  | false =>
    rw [Template.rewrite, if_neg Bool.false_ne_true]
    dsimp only [bind, Option.bind]
    rw [lex?_tickedName bindable]
    cases read : wordToken? name.toList with
    | none => rfl
    | some token =>
      dsimp only [Option.map_some]
      rw [parse?_tickedWord read]
      cases wordExpr? token <;> rfl

/-! ## The value of a word -/

/-- What a hole with a word reads where the word is bound to a value, if the word is an
expression. -/
def wordValue? (name : String) (bound : Value) : Option Value :=
  if name = "true" then some (.bool true)
  else if name = "false" then some (.bool false)
  else if name ∈ keywords ∨ name ∈ reservedWords ∨ isName name.toList = false then none
  else some bound

/-- Keywords other than the truth values are no expressions. -/
private theorem wordExpr?_keyword (known : name ∈ keywords) :
    wordExpr? (.keyword name) =
      if name = "true" then some (.constant (.bool true))
      else if name = "false" then some (.constant (.bool false)) else none := by
  by_cases isTrue : name = "true"
  · rw [if_pos isTrue, isTrue]
    rfl
  by_cases isFalse : name = "false"
  · rw [if_neg isTrue, if_pos isFalse, isFalse]
    rfl
  rw [if_neg isTrue, if_neg isFalse, wordExpr?.eq_4]
  · rintro _ ⟨⟩
  · rintro ⟨⟩
    exact isTrue rfl
  · rintro ⟨⟩
    exact isFalse rfl

/-- The expression of a word is a variable, or a constant if it is a truth value. -/
theorem wordExpr?_wordToken? (name : String) :
    (wordToken? name.toList).bind wordExpr? =
      if name = "true" then some (.constant (.bool true))
      else if name = "false" then some (.constant (.bool false))
      else if name ∈ keywords ∨ name ∈ reservedWords ∨ isName name.toList = false then none
      else some (.variable name) := by
  by_cases underscore : name = "_"
  · subst underscore
    rfl
  by_cases keyword : name ∈ keywords
  · have token : wordToken? name.toList = some (.keyword name) := by
      simp [wordToken?, underscore, keyword]
    rw [token, Option.bind_some, wordExpr?_keyword keyword, if_pos (Or.inl keyword)]
  have other : name ≠ "true" ∧ name ≠ "false" := by
    constructor <;> (rintro rfl; exact keyword (by decide))
  rw [if_neg other.1, if_neg other.2]
  by_cases reserved : name ∈ reservedWords
  · have token : wordToken? name.toList = some (.reserved name) := by
      simp [wordToken?, underscore, keyword, reserved]
    rw [token, if_pos (Or.inr (Or.inl reserved))]
    rfl
  rw [wordToken?_eq keyword reserved, if_neg underscore]
  cases letter : isName name.toList with
  | true => simp [keyword, reserved, wordExpr?]
  | false => simp

theorem wordValue?_eq_none_iff (name : String) (bound : Value) :
    wordValue? name bound = none ↔ (wordToken? name.toList).bind wordExpr? = none := by
  rw [wordExpr?_wordToken?, wordValue?]
  split_ifs <;> simp

variable {known : Bindings} {bound value : Value} {expr : Expr}

/-- The script of a bound word gives its value, or the text of it. -/
theorem run_wordScript (binds : binding? known name = some (.fixed name bound))
    (expression : (wordToken? name.toList).bind wordExpr? = some expr)
    (reads : wordValue? name bound = some value) (typecast : Bool) (answers : Answers) :
    ((wordScript typecast expr).run answers known).1 =
      if typecast then .ok value else boundedText value.printed := by
  rw [wordExpr?_wordToken?] at expression
  rw [wordValue?] at reads
  by_cases isTrue : name = "true"
  · rw [if_pos isTrue] at expression reads
    cases expression
    cases reads
    cases typecast <;> rfl
  by_cases isFalse : name = "false"
  · rw [if_neg isTrue, if_pos isFalse] at expression reads
    cases expression
    cases reads
    cases typecast <;> rfl
  rw [if_neg isTrue, if_neg isFalse] at expression reads
  split at expression
  next => cases expression
  next isVariable =>
    rw [if_neg isVariable] at reads
    cases expression
    cases reads
    cases typecast with
    | true => exact run_variable binds [] answers
    | false =>
      have nothing : Yields known 0 (evalAll (machineAt [] answers maxCalls) .unit []) [] := by
        rw [evalAll]
        exact .pure []
      have segments := evalAll_cons .unit (evalExpr_variable .unit binds) nothing
      have joined : ((wordScript false (.variable name)).run answers known).1 = _ :=
        run_joined segments
      rw [if_pos (by decide), List.map_singleton, String.join_cons, String.join_nil,
        String.append_empty] at joined
      exact joined

end Script

theorem Settings.expand_of_compile?_none [Host] {event : Event} {hostname source : String}
    {typecast : Bool} (inRange : Calendar.isInRange event.time = true)
    (fails : Script.compile? (String.ofList (Template.rewrite typecast source.toList)) = none) :
    (⟨.expression, hostname, typecast⟩ : Settings).expand event source =
      .error (.compilation source) := by
  rw [Settings.expand, Settings.scope]
  dsimp only
  rw [if_pos inRange]
  dsimp only
  rw [Scope.expand, Template.withScript, Template.ofSource]
  dsimp only
  rw [fails]

/-- A word that scripts read as a variable is one that a field can be bound to. A hole with a bound
word reads the field, unless the word is a truth value, which is a constant, another word of the
grammar or underscores with no letter first, which are no expressions. -/
theorem expand_bound_field [Host] {event : Event} {name : String} {value : Json.Value}
    (inRange : Calendar.isInRange event.time = true) (distinct : (Assoc.keys event.record).Nodup)
    (bindable : isBindable name = true) (found : Assoc.get? event.record name = some value)
    (hostname : String) (typecast : Bool) :
    let bound := Script.Value.ofJson value
    let source := Placeholder.token name
    Script.binding? (eventBindings event hostname) name = some (.fixed name bound) ∧
      (∀ word, Script.lex? word.toList = some [.name word] ↔
        isBindable word = true ∧ word ∉ Script.keywords ∧ word ∉ Script.reservedWords ∧
          Script.isName word.toList = true) ∧
      (⟨.expression, hostname, typecast⟩ : Settings).expand event source =
        match Script.wordValue? name bound with
        | some value =>
          if typecast then .ok value.toJson
          else if value.printed.utf8ByteSize ≤ Script.maxTextBytes then .ok (.text value.printed)
          else .error (.evaluation source (.script .textTooLong))
        | none => .error (.compilation source) := by
  intro bound source
  have binds : Script.binding? (eventBindings event hostname) name = some (.fixed name bound) := by
    rw [binding?_event distinct bindable, found]
    rfl
  refine ⟨binds, fun word => Script.lex?_eq_name_iff.trans Script.isVariable_iff, ?_⟩
  have compiled := Script.compile?_word bindable typecast
  cases reads : Script.wordValue? name bound with
  | none =>
    rw [(Script.wordValue?_eq_none_iff name bound).mp reads] at compiled
    exact Settings.expand_of_compile?_none inRange compiled
  | some value =>
    have isSome := mt (Script.wordValue?_eq_none_iff name bound).mpr (by simp [reads])
    obtain ⟨expr, expression⟩ := Option.ne_none_iff_exists'.mp isSome
    rw [expression] at compiled
    rw [Settings.expand_of_compile? inRange compiled,
      Script.run_wordScript binds expression reads typecast]
    cases typecast with
    | true => rfl
    | false =>
      simp only [Bool.false_eq_true, if_false, Script.boundedText]
      by_cases fits : value.printed.utf8ByteSize ≤ Script.maxTextBytes
      · rw [if_neg (Nat.not_lt.mpr fits), if_pos fits]
        rfl
      · rw [if_pos (Nat.not_le.mp fits), if_neg fits]

/-- A field is bound under the name of a truth value, but no hole reads it, and the field `null`
makes its template fail. -/
theorem expand_bound_field_hidden :
    let event : Event := ⟨"a", 0, [("n", .int 4), ("true", .int 5), ("null", .int 6)]⟩
    let settings : Settings := ⟨.expression, "h", true⟩
    settings.expand event "${n}" = .ok (.int 4) ∧
      settings.expand event "${true}" = .ok (.bool true) ∧
      settings.expand event "${null}" = .error (.compilation "${null}") := by
  intro event settings
  have inRange : Calendar.isInRange event.time = true := by decide
  have distinct : (Assoc.keys event.record).Nodup := by decide
  refine ⟨?_, ?_, ?_⟩
  · exact (@expand_bound_field Host.still event "n" _ inRange distinct (by decide) rfl "h" true).2.2
  · exact (@expand_bound_field Host.still event "true" _ inRange distinct (by decide) rfl "h"
      true).2.2
  · exact (@expand_bound_field Host.still event "null" _ inRange distinct (by decide) rfl "h"
      true).2.2

end Recast
