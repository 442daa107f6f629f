import Recast.Proofs.Substitution
import Recast.Template.Basic

set_option autoImplicit false

/-!
# The tokens of a hole

A name is one token, if it has a letter in it. A segment is four, and its index is a double if it
needs more than 64 bits.
-/

namespace Recast.Script

open Template (Hole isNameChar nameChar_cases isBlank_of_isNameChar)

def indexToken? (index : Int) : Option Token :=
  if isInt index then some (.int index)
  else (Decimal.double? (Decimal.intText index)).map .float

/-- The tokens of a hole, if it has any. -/
def holeTokens? : Hole → Option (List Token)
  | .named name => (wordToken? name.toList).map ([·])
  | .segment family index => (indexToken? index).map fun number =>
      [.name family, .symbol "[", number, .symbol "]"]

/-! ## Words -/

private theorem isAlpha_of_range {char : Char} (range : 97 ≤ char.toNat ∧ char.toNat ≤ 122) :
    char.isAlpha = true := by
  have lower : char.isLower = true := by
    show (decide (97 ≤ char.val) && decide (char.val ≤ 122)) = true
    rw [Bool.and_eq_true, decide_eq_true_eq, decide_eq_true_eq]
    exact range
  show (char.isUpper || char.isLower) = true
  rw [lower, Bool.or_true]

theorem isNamePart_of_isNameChar {char : Char} (letter : isNameChar char = true) :
    isNamePart char = true := by
  rcases nameChar_cases letter with rfl | range
  · rfl
  · simp [isNamePart, Char.isAlphanum, isAlpha_of_range range]

theorem isNameStart_of_isNameChar {char : Char} (letter : isNameChar char = true) :
    isNameStart char = true := by
  rcases nameChar_cases letter with rfl | range
  · rfl
  · simp [isNameStart, isAlpha_of_range range]

theorem isAlpha_cases {char : Char} (letter : char.isAlpha = true) :
    65 ≤ char.toNat ∧ char.toNat ≤ 90 ∨ 97 ≤ char.toNat ∧ char.toNat ≤ 122 := by
  have parts : (char.isUpper || char.isLower) = true := letter
  rw [Bool.or_eq_true] at parts
  rcases parts with upper | lower
  · have range := of_decide_eq_true upper
    exact Or.inl ⟨range.1, range.2⟩
  · have range : (decide (97 ≤ char.val) && decide (char.val ≤ 122)) = true := lower
    rw [Bool.and_eq_true, decide_eq_true_eq, decide_eq_true_eq] at range
    exact Or.inr ⟨range.1, range.2⟩

theorem isDigit_cases {char : Char} (digit : char.isDigit = true) :
    48 ≤ char.toNat ∧ char.toNat ≤ 57 := by
  rw [Char.isDigit, Bool.and_eq_true, decide_eq_true_eq, decide_eq_true_eq] at digit
  exact ⟨digit.1, digit.2⟩

theorem isBlank_of_isNameStart {char : Char} (starts : isNameStart char = true) :
    Text.isBlank char = false := by
  rw [isNameStart, Bool.or_eq_true, beq_iff_eq] at starts
  rcases starts with letter | rfl
  · have range := isAlpha_cases letter
    simp only [Text.isBlank, Bool.or_eq_false_iff, Bool.and_eq_false_iff, decide_eq_false_iff_not,
      beq_eq_false_iff_ne]
    omega
  · rfl

theorem isDigit_of_isNameStart {char : Char} (starts : isNameStart char = true) :
    char.isDigit = false := by
  rw [isNameStart, Bool.or_eq_true, beq_iff_eq] at starts
  rcases starts with letter | rfl
  · rw [Bool.eq_false_iff]
    intro digit
    have range := isAlpha_cases letter
    have other := isDigit_cases digit
    omega
  · rfl

theorem isNamePart_of_isNameStart {char : Char} (starts : isNameStart char = true) :
    isNamePart char = true := by
  rw [isNamePart, Char.isAlphanum]
  rcases Bool.or_eq_true_iff.mp starts with letter | underscore
  · rw [letter]
    rfl
  · rw [underscore, Bool.or_true]

theorem staysOutside_of_isNamePart {char : Char} (letter : isNamePart char = true) :
    Template.staysOutside char = true :=
  Template.staysOutside_of rfl letter

/-- The text after a word does not go on with it. -/
def StopsWord (text : List Char) : Prop :=
  ∀ char ∈ text.head?, isNamePart char = false

theorem stopsWord_nil : StopsWord [] := by
  intro char first
  cases first

theorem takeWhile_namePart {word rest : List Char}
    (letters : ∀ char ∈ word, isNamePart char = true) (stops : StopsWord rest) :
    (word ++ rest).takeWhile isNamePart = word := by
  rw [List.takeWhile_append_of_pos letters]
  cases rest with
  | nil => exact List.append_nil _
  | cons char rest =>
    rw [List.takeWhile_cons, stops char rfl]
    exact List.append_nil _

/-- The token of a word that the grammar does not use. -/
theorem wordToken?_eq {name : String} (noKeyword : name ∉ keywords)
    (noReserved : name ∉ reservedWords) :
    wordToken? name.toList = if name = "_" then some (.symbol "_")
      else if isName name.toList then some (.name name) else none := by
  have text : wordToken? name.toList = if name = "_" then some (.symbol name)
      else if keywords.contains name then some (.keyword name)
      else if reservedWords.contains name then some (.reserved name)
      else if isName name.toList then some (.name name) else none := by
    simp only [wordToken?, String.ofList_toList]
  rw [text, if_neg fun known => noKeyword (List.contains_iff_mem.mp known),
    if_neg fun known => noReserved (List.contains_iff_mem.mp known)]
  split
  next underscore => rw [underscore]
  next => rfl

theorem wordToken?_plain {name : String} (noKeyword : name ∉ keywords)
    (noReserved : name ∉ reservedWords) {token : Token}
    (read : wordToken? name.toList = some token) :
    token = .symbol "_" ∨ token = .name name := by
  rw [wordToken?_eq noKeyword noReserved] at read
  split at read
  next => cases read; exact Or.inl rfl
  next =>
    split at read
    next => cases read; exact Or.inr rfl
    next => cases read

private theorem endsOperand_of_wordToken? {name : String} (noKeyword : name ∉ keywords)
    (noReserved : name ∉ reservedWords) {token : Token}
    (read : wordToken? name.toList = some token) :
    token.endsOperand = true := by
  rcases wordToken?_plain noKeyword noReserved read with rfl | rfl
  · rfl
  · rfl

theorem lexFrom_cons (fuel : Nat) (holes : List Nat) (operand : Bool) (char : Char)
    (rest : List Char) :
    lexFrom (fuel + 1) holes operand (char :: rest) =
      (lexOne holes operand char rest).bind fun read =>
        (lexFrom fuel read.holes read.operand read.rest).map (read.tokens ++ ·) := rfl

/-- A word is one token, if it is any. -/
theorem lexFrom_parts {first : Char} {word : List Char} (starts : isNameStart first = true)
    (letters : ∀ char ∈ first :: word, isNamePart char = true) (fuel : Nat) (holes : List Nat)
    (operand : Bool) {rest : List Char} (stops : StopsWord rest) :
    lexFrom (fuel + 1) holes operand (first :: word ++ rest) =
      (wordToken? (first :: word)).bind fun token =>
        (lexFrom fuel holes token.endsOperand rest).map (token :: ·) := by
  have taken := takeWhile_namePart letters stops
  have dropped : (first :: word ++ rest).drop (first :: word).length = rest := List.drop_left
  rw [List.cons_append] at taken dropped ⊢
  have read : lexOne holes operand first (word ++ rest) =
      lexWord holes (first :: (word ++ rest)) := by
    rw [lexOne, isBlank_of_isNameStart starts, isDigit_of_isNameStart starts, starts]
    rfl
  rw [lexFrom_cons, read, lexWord, taken, dropped]
  cases wordToken? (first :: word) with
  | none => rfl
  | some token => simp [Reading.single]

/-- A word that ends an operand. -/
theorem lexFrom_letters {first : Char} {word : List Char} (starts : isNameStart first = true)
    (letters : ∀ char ∈ first :: word, isNamePart char = true)
    (ends : ∀ token, wordToken? (first :: word) = some token → token.endsOperand = true)
    (fuel : Nat) (holes : List Nat) (operand : Bool) {rest : List Char} (stops : StopsWord rest) :
    lexFrom (fuel + 1) holes operand (first :: word ++ rest) =
      (wordToken? (first :: word)).bind fun token =>
        (lexFrom fuel holes true rest).map (token :: ·) := by
  rw [lexFrom_parts starts letters fuel holes operand stops]
  cases found : wordToken? (first :: word) with
  | none => rfl
  | some token => rw [Option.bind_some, Option.bind_some, ends token found]

theorem lexFrom_word {name : String} (filled : name ≠ "")
    (letters : ∀ char ∈ name.toList, isNameChar char = true) (noKeyword : name ∉ keywords)
    (noReserved : name ∉ reservedWords) (fuel : Nat) (holes : List Nat) (operand : Bool)
    {rest : List Char} (stops : StopsWord rest) :
    lexFrom (fuel + 1) holes operand (name.toList ++ rest) =
      (wordToken? name.toList).bind fun token =>
        (lexFrom fuel holes true rest).map (token :: ·) := by
  have ends : ∀ token, wordToken? name.toList = some token → token.endsOperand = true :=
    fun token => endsOperand_of_wordToken? noKeyword noReserved
  cases written : name.toList with
  | nil => exact absurd (String.toList_eq_nil_iff.mp written) filled
  | cons char word =>
    rw [written] at letters ends
    have starts := isNameStart_of_isNameChar (letters char List.mem_cons_self)
    exact lexFrom_letters starts
      (fun char member => isNamePart_of_isNameChar (letters char member)) ends fuel holes operand
      stops

/-! ## Signs -/

theorem lexFrom_openBracket (fuel : Nat) (holes : List Nat) (operand : Bool) (rest : List Char) :
    lexFrom (fuel + 1) holes operand ('[' :: rest) =
      (lexFrom fuel holes false rest).map (.symbol "[" :: ·) := by
  have read : lexOne holes operand '[' rest = some ⟨[.symbol "["], holes, false, rest⟩ := by
    simp [lexOne, isNameStart, lexSign, notIn?, leading?, deadSymbols, symbols, Text.afterStart?,
      Reading.single, Token.endsOperand, Text.isBlank]
  rw [lexFrom_cons, read]
  rfl

theorem lexFrom_closeBracket (fuel : Nat) (holes : List Nat) (operand : Bool) (rest : List Char) :
    lexFrom (fuel + 1) holes operand (']' :: rest) =
      (lexFrom fuel holes true rest).map (.symbol "]" :: ·) := by
  have read : lexOne holes operand ']' rest = some ⟨[.symbol "]"], holes, true, rest⟩ := by
    simp [lexOne, isNameStart, lexSign, notIn?, leading?, deadSymbols, symbols, Text.afterStart?,
      Reading.single, Token.endsOperand, Text.isBlank]
  rw [lexFrom_cons, read]
  rfl

/-- The brace at the end of a hole leads on to the text after it. -/
theorem lexFrom_closeHole (fuel : Nat) (operand : Bool) (rest : List Char) :
    lexFrom (fuel + 1) [1] operand ('\x7d' :: rest) =
      (lexText [] rest).bind fun read =>
        (lexFrom fuel read.holes read.operand read.rest).map fun tokens =>
          .symbol "\x7d" :: (read.tokens ++ tokens) := by
  have read : lexOne [1] operand '\x7d' rest = lexClosing [1] rest := rfl
  rw [lexFrom_cons, read, lexClosing]
  cases lexText [] rest with
  | none => rfl
  | some read => rfl

/-! ## Indices -/

theorem isBlank_of_isDigit {char : Char} (digit : char.isDigit = true) :
    Text.isBlank char = false := by
  have range := isDigit_cases digit
  simp only [Text.isBlank, Bool.or_eq_false_iff, Bool.and_eq_false_iff, decide_eq_false_iff_not,
    beq_eq_false_iff_ne]
  omega

theorem takeDigits_natText (number : Nat) (rest : List Char) :
    takeDigits Char.isDigit (Decimal.natText number ++ ']' :: rest) =
      (Decimal.natText number, ']' :: rest) := by
  have run : ∀ digits : List Char, (∀ digit ∈ digits, digit.isDigit = true) →
      takeDigits Char.isDigit (digits ++ ']' :: rest) = (digits, ']' :: rest) := by
    intro digits
    induction digits with
    | nil => intro _; rfl
    | cons digit digits ih =>
      intro all
      have first := all digit List.mem_cons_self
      have other : (digit == '_') = false := by
        rw [beq_eq_false_iff_ne]
        rintro rfl
        cases first
      rw [List.cons_append, takeDigits, other, first,
        ih fun digit member => all digit (List.mem_cons_of_mem _ member)]
      rfl
  exact run _ fun digit member => Decimal.isDigit_of_mem_natText member

private theorem baseMark?_eq_none {char : Char} (mark : char.isDigit = true ∨ char = ']') :
    baseMark? char = none := by
  unfold baseMark?
  split <;> first | rfl | (rcases mark with mark | mark <;> cases mark)

private theorem lexNumber_natText (negative : Bool) (number : Nat) (rest : List Char) :
    lexNumber negative (Decimal.natText number ++ ']' :: rest) =
      lexDecimal negative (Decimal.natText number ++ ']' :: rest) := by
  unfold lexNumber
  split
  next mark tail same =>
    have isMark : mark.isDigit = true ∨ mark = ']' := by
      obtain ⟨digit, more, written, _⟩ := Decimal.natText_eq_cons number
      rw [written, List.cons_append, List.cons.injEq] at same
      cases more with
      | nil => exact Or.inr (List.cons.inj same.2).1.symm
      | cons next more =>
        have member : next ∈ Decimal.natText number := by
          rw [written]
          exact List.mem_cons_of_mem _ List.mem_cons_self
        rw [← (List.cons.inj same.2).1]
        exact Or.inl (Decimal.isDigit_of_mem_natText member)
    rw [baseMark?_eq_none isMark]
  next => rfl

theorem lexNumber_index (negative : Bool) (number : Nat) (rest : List Char) :
    let index := if negative then -Int.ofNat number else Int.ofNat number
    let text := (if negative then ['-'] else []) ++ Decimal.natText number
    lexNumber negative (Decimal.natText number ++ ']' :: rest) =
      (if isInt index then some (.int index)
        else (Decimal.double? text).map Token.float).map (·, ']' :: rest) := by
  have fraction : lexFraction (']' :: rest) = (none, ']' :: rest) := rfl
  have exponent : lexExponent (']' :: rest) = (none, ']' :: rest) := rfl
  dsimp only
  rw [lexNumber_natText, lexDecimal]
  simp only [takeDigits_natText, fraction, exponent, Decimal.digitsValue_natText,
    Option.isSome_none, Bool.and_false, Bool.false_eq_true, if_false, Option.isNone_none,
    Bool.true_and, Option.elim_none, List.append_nil]
  generalize (if negative = true then -Int.ofNat number else Int.ofNat number) = index
  cases fits : isInt index with
  | true => rfl
  | false =>
    simp only [Bool.false_eq_true, if_false, Option.map_map]
    rfl

private theorem endsOperand_of_indexToken? {index : Int} {token : Token}
    (read : indexToken? index = some token) : token.endsOperand = true := by
  unfold indexToken? at read
  split at read
  next => cases read; rfl
  next =>
    obtain ⟨value, _, rfl⟩ := Option.map_eq_some_iff.mp read
    rfl

private theorem lexOne_natText {holes : List Nat} {number : Nat} {rest tail : List Char}
    {char : Char} (written : Decimal.natText number ++ ']' :: rest = char :: tail) :
    lexOne holes false char tail =
      (indexToken? (Int.ofNat number)).map fun token => .single holes (token, ']' :: rest) := by
  obtain ⟨digit, more, digits, isDigit⟩ := Decimal.natText_eq_cons number
  have read : lexNumber false (char :: tail) =
      (indexToken? (Int.ofNat number)).map (·, ']' :: rest) := by
    rw [← written]
    exact lexNumber_index false number rest
  have first : char.isDigit = true := by
    rw [digits, List.cons_append, List.cons.injEq] at written
    rw [← written.1]
    exact isDigit
  rw [lexOne, isBlank_of_isDigit first, first, read, Option.map_map]
  rfl

private theorem lexOne_negText (holes : List Nat) (number : Nat) (rest : List Char) :
    lexOne holes false '-' (Decimal.natText (number + 1) ++ ']' :: rest) =
      (indexToken? (Int.negSucc number)).map fun token => .single holes (token, ']' :: rest) := by
  obtain ⟨digit, more, digits, isDigit⟩ := Decimal.natText_eq_cons (number + 1)
  have read : lexNumber true (Decimal.natText (number + 1) ++ ']' :: rest) =
      (indexToken? (Int.negSucc number)).map (·, ']' :: rest) :=
    lexNumber_index true (number + 1) rest
  have first : (Decimal.natText (number + 1) ++ ']' :: rest).head?.any Char.isDigit = true := by
    rw [digits]
    exact isDigit
  -- After an opening bracket there is no operand, so the minus sign belongs to the number.
  have sign : lexSign false '-' (Decimal.natText (number + 1) ++ ']' :: rest) =
      lexNumber true (Decimal.natText (number + 1) ++ ']' :: rest) := by
    rw [lexSign, first]
    rfl
  have skipped : ∀ tail, lexOne holes false '-' tail =
      (lexSign false '-' tail).map (.single holes) := by
    intro tail
    simp [lexOne, isNameStart, Text.isBlank]
  rw [skipped, sign, read, Option.map_map]
  rfl

theorem lexFrom_index (fuel : Nat) (holes : List Nat) (index : Int) (rest : List Char) :
    lexFrom (fuel + 1) holes false (Decimal.intText index ++ ']' :: rest) =
      (indexToken? index).bind fun token =>
        (lexFrom fuel holes true (']' :: rest)).map (token :: ·) := by
  obtain ⟨char, tail, written, one⟩ : ∃ char tail,
      Decimal.intText index ++ ']' :: rest = char :: tail ∧ lexOne holes false char tail =
        (indexToken? index).map fun token => .single holes (token, ']' :: rest) := by
    cases index with
    | ofNat number =>
      obtain ⟨digit, more, digits, _⟩ := Decimal.natText_eq_cons number
      have written : Decimal.natText number ++ ']' :: rest = digit :: (more ++ ']' :: rest) := by
        rw [digits, List.cons_append]
      exact ⟨digit, _, written, lexOne_natText written⟩
    | negSucc number => exact ⟨'-', _, rfl, lexOne_negText holes number rest⟩
  rw [written, lexFrom_cons, one]
  cases read : indexToken? index with
  | none => rfl
  | some token => simp [Reading.single, endsOperand_of_indexToken? read]

def tokenCount : Hole → Nat
  | .named _ => 1
  | .segment _ _ => 4

theorem tokenCount_le {hole : Hole} (plain : hole.IsPlain) :
    tokenCount hole ≤ hole.inner.toList.length := by
  cases hole with
  | named name =>
    have filled : name.toList ≠ [] := fun empty => plain.1 (String.toList_eq_nil_iff.mp empty)
    exact List.length_pos_iff.mpr filled
  | segment family index =>
    have filled : ∀ family ∈ Placeholder.families, 1 ≤ family.toList.length := by decide
    have first := filled family plain
    have digits : 0 < (Decimal.intText index).length := by
      cases index with
      | ofNat number => exact List.length_pos_iff.mpr (Decimal.natText_ne_nil number)
      | negSucc number => exact Nat.succ_pos _
    rw [Hole.inner, Template.toList_segmentName, tokenCount]
    simp only [List.length_append, List.length_cons, List.length_nil]
    omega

private theorem family_isWord : ∀ family ∈ Placeholder.families, family ≠ "" ∧ family ≠ "_" ∧
    family ∉ keywords ∧ family ∉ reservedWords ∧ isName family.toList = true := by
  decide

/-- The tokens of a hole are read up to what follows it. -/
theorem lexFrom_hole {hole : Hole} (plain : hole.IsPlain) (fuel : Nat) (holes : List Nat)
    {rest : List Char} (stops : StopsWord rest) :
    lexFrom (fuel + tokenCount hole) holes false (hole.inner.toList ++ rest) =
      (holeTokens? hole).bind fun tokens => (lexFrom fuel holes true rest).map (tokens ++ ·) := by
  cases hole with
  | named name =>
    obtain ⟨filled, letters, noKeyword, noReserved⟩ := plain
    rw [Hole.inner, tokenCount,
      lexFrom_word filled letters noKeyword noReserved fuel holes false stops, holeTokens?]
    cases wordToken? name.toList with
    | none => rfl
    | some token => rfl
  | segment family index =>
    obtain ⟨filled, other, noKeyword, noReserved, isWord⟩ := family_isWord family plain
    have word : wordToken? family.toList = some (.name family) := by
      rw [wordToken?_eq noKeyword noReserved, if_neg other, if_pos isWord]
    have letters := Template.isNameChar_of_mem_family plain
    have inner : (Hole.segment family index).inner.toList ++ rest =
        family.toList ++ '[' :: (Decimal.intText index ++ ']' :: rest) := by
      rw [Hole.inner, Template.toList_segmentName]
      simp
    have bracket : StopsWord ('[' :: (Decimal.intText index ++ ']' :: rest)) := by
      intro char first
      cases first
      rfl
    rw [inner, tokenCount,
      lexFrom_word filled letters noKeyword noReserved (fuel + 3) holes false bracket, word,
      Option.bind_some, lexFrom_openBracket, lexFrom_index, lexFrom_closeBracket, holeTokens?]
    cases indexToken? index with
    | none => rfl
    | some number =>
      cases lexFrom fuel holes true rest with
      | none => rfl
      | some tokens => rfl

end Recast.Script
