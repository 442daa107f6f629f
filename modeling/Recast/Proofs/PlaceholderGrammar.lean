import Recast.Template.Pieces

set_option autoImplicit false

/-!
# The grammar of placeholders

A template is read as literals and placeholders in one way only: each placeholder is the longest
word of the grammar that begins where it begins, and no word begins within a literal. Cutting a
template into pieces finds this reading.
-/

namespace Recast.Template

/-- An index in brackets: digits after at most one minus sign. -/
inductive IsIndex : List Char → Prop where
  | mk {sign digits : List Char} : sign = [] ∨ sign = ['-'] → digits ≠ [] →
      (∀ digit ∈ digits, digit.isDigit = true) → IsIndex ('[' :: (sign ++ (digits ++ [']'])))

/-- A word of the grammar: in braces after a dollar sign a name of small letters and underscores,
with an index or without, or between double underscores a name of capitals and underscores. -/
inductive IsWord : List Char → Prop where
  | braced {name index : List Char} : name ≠ [] → (∀ char ∈ name, isNameChar char = true) →
      index = [] ∨ IsIndex index → IsWord ('$' :: '\x7b' :: (name ++ (index ++ ['\x7d'])))
  | legacy {name : List Char} : name ≠ [] → (∀ char ∈ name, isLegacyChar char = true) →
      IsWord ('_' :: '_' :: (name ++ ['_', '_']))

/-! ## Words in braces -/

section Braced

variable {name index text rest : List Char} {length : Nat}

theorem takeWhile_append_stop {isMember : Char → Bool} {front : List Char}
    (members : ∀ char ∈ front, isMember char = true)
    (stops : ∀ char ∈ rest.head?, isMember char = false) :
    (front ++ rest).takeWhile isMember = front := by
  rw [List.takeWhile_append_of_pos members]
  cases rest with
  | nil => simp
  | cons char rest =>
    rw [List.takeWhile_cons, stops char rfl]
    simp

theorem eq_takeWhile_append_drop (isMember : Char → Bool) (text : List Char) :
    text = text.takeWhile isMember ++ text.drop (text.takeWhile isMember).length :=
  (List.prefix_iff_eq_append.mp (List.takeWhile_prefix isMember)).symm

theorem indexLength?_of_isIndex (isIndex : IsIndex index) (rest : List Char) :
    indexLength? (index ++ rest) = some index.length := by
  obtain @⟨sign, digits, known, filled, members⟩ := isIndex
  have taken : (digits ++ ']' :: rest).takeWhile Char.isDigit = digits := by
    refine takeWhile_append_stop members ?_
    rintro char ⟨⟩
    rfl
  obtain ⟨digit, more, rfl⟩ := List.exists_cons_of_ne_nil filled
  have noMinus : digit ≠ '-' := by
    rintro rfl
    exact absurd (members '-' List.mem_cons_self) (by decide)
  rw [List.cons_append] at taken
  obtain rfl | rfl := known
  · simp only [List.nil_append, List.cons_append, List.append_assoc, indexLength?]
    simp [taken, noMinus]
    omega
  · simp only [List.nil_append, List.cons_append, List.append_assoc, indexLength?]
    simp [taken]
    omega

theorem exists_isIndex_of_indexLength? (found : indexLength? text = some length) :
    ∃ index rest, IsIndex index ∧ text = index ++ rest ∧ index.length = length := by
  unfold indexLength? at found
  split at found
  next text =>
    split at found
    next size after parted =>
      obtain ⟨sign, known, rfl, rfl⟩ :
          ∃ sign, (sign = [] ∨ sign = ['-']) ∧ text = sign ++ after ∧ sign.length = size := by
        split at parted
        next rest =>
          cases parted
          exact ⟨['-'], .inr rfl, rfl, rfl⟩
        next =>
          cases parted
          exact ⟨[], .inl rfl, rfl, rfl⟩
      dsimp only at found
      split at found
      next digits left digit more rest taken dropped =>
        cases found
        have joined := eq_takeWhile_append_drop Char.isDigit after
        rw [dropped] at joined
        have filled : after.takeWhile Char.isDigit ≠ [] := by
          rw [taken]
          exact List.cons_ne_nil _ _
        have members : ∀ digit ∈ after.takeWhile Char.isDigit, digit.isDigit = true :=
          List.all_eq_true.mp List.all_takeWhile
        refine ⟨_, rest, .mk known filled members, ?_, ?_⟩
        · simpa using joined
        · simp
          omega
      next => cases found
  next => cases found

/-- A word in braces is followed by nothing that could belong to it. -/
theorem bracedLength?_of_braced (filled : name ≠ [])
    (letters : ∀ char ∈ name, isNameChar char = true) (known : index = [] ∨ IsIndex index)
    (rest : List Char) :
    bracedLength? ('$' :: '\x7b' :: (name ++ (index ++ '\x7d' :: rest))) =
      some (2 + name.length + index.length + 1) := by
  have stops : ∀ char ∈ (index ++ '\x7d' :: rest).head?, isNameChar char = false := by
    obtain rfl | ⟨_, _, _⟩ := known
    · rintro char ⟨⟩
      rfl
    · rintro char ⟨⟩
      rfl
  have taken := takeWhile_append_stop letters stops
  have length : (indexLength? (index ++ '\x7d' :: rest)).getD 0 = index.length := by
    obtain rfl | isIndex := known
    · rfl
    · rw [indexLength?_of_isIndex isIndex, Option.getD_some]
  have some : name.isEmpty = false := by simpa using filled
  simp [bracedLength?, taken, some, length]

theorem exists_isWord_of_bracedLength? (found : bracedLength? text = some length) :
    ∃ word rest, IsWord word ∧ text = word ++ rest ∧ word.length = length := by
  unfold bracedLength? at found
  split at found
  next text =>
    dsimp only at found
    have letters : ∀ char ∈ text.takeWhile isNameChar, isNameChar char = true :=
      List.all_eq_true.mp List.all_takeWhile
    have named := eq_takeWhile_append_drop isNameChar text
    generalize text.takeWhile isNameChar = name at found letters named
    generalize text.drop name.length = after at found named
    split at found
    next => cases found
    next filled =>
      rw [List.isEmpty_iff] at filled
      obtain ⟨index, more, known, rfl, length⟩ : ∃ index more, (index = [] ∨ IsIndex index) ∧
          after = index ++ more ∧ (indexLength? after).getD 0 = index.length := by
        cases indexed : indexLength? after with
        | none => exact ⟨[], after, .inl rfl, rfl, rfl⟩
        | some size =>
          obtain ⟨index, more, isIndex, rfl, rfl⟩ := exists_isIndex_of_indexLength? indexed
          exact ⟨index, more, .inr isIndex, rfl, rfl⟩
      rw [length, List.drop_left] at found
      split at found
      next rest =>
        cases found
        refine ⟨_, rest, .braced filled letters known, ?_, ?_⟩
        · simp [named]
        · simp
          omega
      next => cases found
  next => cases found

end Braced

/-! ## Words between underscores -/

section Legacy

variable {name text rest : List Char}

/-- The last two underscores next to each other. -/
theorem exists_pair_of_lastPair? {position found : Nat}
    (pair : lastPair? position text = some found) :
    ∃ before after, text = before ++ '_' :: '_' :: after ∧ found = position + before.length := by
  induction text generalizing position found with
  | nil => cases pair
  | cons char rest ih =>
    rw [lastPair?] at pair
    cases later : lastPair? (position + 1) rest with
    | some place =>
      rw [later] at pair
      cases pair
      obtain ⟨before, after, rfl, rfl⟩ := ih later
      exact ⟨char :: before, after, rfl, by simp; omega⟩
    | none =>
      rw [later] at pair
      cases rest with
      | nil => simp at pair
      | cons next rest =>
        by_cases both : char = '_' ∧ next = '_'
        · obtain ⟨rfl, rfl⟩ := both
          cases pair
          exact ⟨[], rest, rfl, rfl⟩
        · simp [both] at pair

theorem lastPair?_of_pair (position : Nat) (before after : List Char) :
    ∃ found, lastPair? position (before ++ '_' :: '_' :: after) = some found ∧
      position + before.length ≤ found := by
  induction before generalizing position with
  | nil =>
    rw [List.nil_append, lastPair?]
    cases later : lastPair? (position + 1) ('_' :: after) with
    | none => exact ⟨position, rfl, Nat.le_refl _⟩
    | some found =>
      obtain ⟨before, _, _, rfl⟩ := exists_pair_of_lastPair? later
      exact ⟨_, rfl, by simp; omega⟩
  | cons char before ih =>
    obtain ⟨found, later, above⟩ := ih (position + 1)
    rw [List.cons_append, lastPair?, later]
    exact ⟨found, rfl, by simp; omega⟩

theorem exists_isWord_of_legacyLength? {length : Nat} (found : legacyLength? text = some length) :
    ∃ word rest, IsWord word ∧ text = word ++ rest ∧ word.length = length := by
  unfold legacyLength? at found
  split at found
  next text =>
    have letters : ∀ char ∈ text.takeWhile isLegacyChar, isLegacyChar char = true :=
      List.all_eq_true.mp List.all_takeWhile
    have joined := eq_takeWhile_append_drop isLegacyChar text
    generalize text.takeWhile isLegacyChar = run at found letters joined
    generalize text.drop run.length = rest at joined
    split at found
    next => cases found
    next first more =>
      obtain ⟨position, pair, rfl⟩ := Option.map_eq_some_iff.mp found
      obtain ⟨before, after, rfl, rfl⟩ := exists_pair_of_lastPair? pair
      have members : ∀ char ∈ first :: before, isLegacyChar char = true := by
        intro char member
        exact letters char (List.mem_append_left ('_' :: '_' :: after) member)
      refine ⟨_, after ++ rest, .legacy (List.cons_ne_nil first before) members, ?_, ?_⟩
      · simp [joined]
      · simp
        omega
  next => cases found

theorem legacyLength?_of_legacy (filled : name ≠ [])
    (letters : ∀ char ∈ name, isLegacyChar char = true) (rest : List Char) :
    ∃ length, legacyLength? ('_' :: '_' :: (name ++ '_' :: '_' :: rest)) = some length ∧
      name.length + 4 ≤ length := by
  obtain ⟨first, more, rfl⟩ := List.exists_cons_of_ne_nil filled
  have taken : (first :: more ++ '_' :: '_' :: rest).takeWhile isLegacyChar =
      first :: (more ++ '_' :: '_' :: rest.takeWhile isLegacyChar) := by
    rw [List.takeWhile_append_of_pos letters]
    rfl
  obtain ⟨position, pair, above⟩ :=
    lastPair?_of_pair 1 more (rest.takeWhile isLegacyChar)
  refine ⟨2 + position + 2, ?_, ?_⟩
  · rw [legacyLength?, taken]
    simp [pair]
  · simp
    omega

end Legacy

/-! ## The longest word -/

section Word

variable {text word : List Char} {length : Nat}

theorem IsWord.ne_nil (isWord : IsWord word) : word ≠ [] := by
  cases isWord <;> exact List.cons_ne_nil _ _

theorem exists_isWord_of_wordLength? (found : wordLength? text = some length) :
    ∃ word rest, IsWord word ∧ text = word ++ rest ∧ word.length = length := by
  cases braced : bracedLength? text with
  | some size =>
    rw [wordLength?, braced] at found
    cases found
    exact exists_isWord_of_bracedLength? braced
  | none =>
    rw [wordLength?, braced] at found
    exact exists_isWord_of_legacyLength? found

theorem wordLength?_braced {name index : List Char} (filled : name ≠ [])
    (letters : ∀ char ∈ name, isNameChar char = true) (known : index = [] ∨ IsIndex index)
    (rest : List Char) :
    let word := '$' :: '\x7b' :: (name ++ (index ++ ['\x7d']))
    wordLength? (word ++ rest) = some word.length := by
  have found := bracedLength?_of_braced filled letters known rest
  simp only [wordLength?, List.cons_append, List.append_assoc, List.nil_append, found]
  simp
  omega

theorem wordLength?_of_isWord (isWord : IsWord word) (rest : List Char) :
    ∃ length, wordLength? (word ++ rest) = some length ∧ word.length ≤ length := by
  cases isWord with
  | braced filled letters known =>
    exact ⟨_, wordLength?_braced filled letters known rest, Nat.le_refl _⟩
  | @legacy name filled letters =>
    obtain ⟨length, found, above⟩ := legacyLength?_of_legacy filled letters rest
    refine ⟨length, ?_, ?_⟩
    · simp [wordLength?, bracedLength?, found]
    · simp
      omega

theorem wordLength?_eq_none_iff :
    wordLength? text = none ↔ ∀ word, IsWord word → ¬ word <+: text := by
  constructor
  · rintro none word isWord ⟨rest, rfl⟩
    obtain ⟨length, found, _⟩ := wordLength?_of_isWord isWord rest
    rw [none] at found
    cases found
  · intro wordless
    cases found : wordLength? text with
    | none => rfl
    | some length =>
      obtain ⟨word, rest, isWord, rfl, _⟩ := exists_isWord_of_wordLength? found
      exact absurd (List.prefix_append word rest) (wordless word isWord)

theorem wordLength?_eq_some_iff :
    wordLength? text = some length ↔ ∃ word, IsWord word ∧ word <+: text ∧ word.length = length ∧
      ∀ other, IsWord other → other <+: text → other.length ≤ length := by
  constructor
  · intro found
    obtain ⟨word, rest, isWord, rfl, size⟩ := exists_isWord_of_wordLength? found
    refine ⟨word, isWord, List.prefix_append word rest, size, ?_⟩
    rintro other otherIsWord ⟨more, split⟩
    obtain ⟨longest, otherFound, above⟩ := wordLength?_of_isWord otherIsWord more
    rw [split, found] at otherFound
    cases otherFound
    exact above
  · rintro ⟨word, isWord, ⟨rest, rfl⟩, rfl, longest⟩
    obtain ⟨length, found, above⟩ := wordLength?_of_isWord isWord rest
    obtain ⟨other, more, otherIsWord, split, rfl⟩ := exists_isWord_of_wordLength? found
    have below := longest other otherIsWord (split ▸ List.prefix_append other more)
    rw [found, Nat.le_antisymm below above]

theorem wordLength?_append_eq_some_iff {behind : List Char} :
    wordLength? (word ++ behind) = some word.length ↔ IsWord word ∧
      ∀ other, IsWord other → other <+: word ++ behind → other.length ≤ word.length := by
  rw [wordLength?_eq_some_iff]
  constructor
  · rintro ⟨first, isWord, front, size, longest⟩
    have within : first <+: word :=
      List.prefix_of_prefix_length_le front (List.prefix_append word behind) (Nat.le_of_eq size)
    obtain rfl := within.eq_of_length size
    exact ⟨isWord, longest⟩
  · rintro ⟨isWord, longest⟩
    exact ⟨word, isWord, List.prefix_append word behind, rfl, longest⟩

/-- A text is a word if it is the longest word that it begins with. -/
theorem wordLength?_eq_length_iff : wordLength? word = some word.length ↔ IsWord word := by
  have whole : wordLength? (word ++ []) = some word.length ↔ _ := wordLength?_append_eq_some_iff
  rw [List.append_nil] at whole
  exact whole.trans (and_iff_left fun _ _ within => within.length_le)

instance (text : List Char) : Decidable (IsWord text) :=
  decidable_of_iff _ wordLength?_eq_length_iff

end Word

/-! ## Readings -/

def Piece.chars : Piece → List Char
  | .literal text => text.toList
  | .placeholder token => token.toList

/-- The text that pieces make end to end. -/
def textOf (pieces : List Piece) : List Char :=
  pieces.flatMap Piece.chars

/-- How the grammar reads a source. Offsets count characters of the source. -/
structure Reads (source : String) (pieces : List Piece) : Prop where
  joined : textOf pieces = source.toList
  filled : .literal "" ∉ pieces
  apart : ∀ first second, ¬ [.literal first, .literal second] <:+: pieces
  words : ∀ token, .placeholder token ∈ pieces → IsWord token.toList
  silent : ∀ before text after, pieces = before ++ .literal text :: after →
    ∀ offset, (textOf before).length ≤ offset → offset < (textOf before).length + text.length →
      ∀ word, IsWord word → ¬ word <+: source.toList.drop offset
  longest : ∀ before token after, pieces = before ++ .placeholder token :: after →
    ∀ word, IsWord word → word <+: source.toList.drop (textOf before).length →
      word.length ≤ token.length

/-- No word begins in the text, whether it ends there or in the text behind it. -/
def Silent : List Char → List Char → Prop
  | [], _ => True
  | char :: text, behind => wordLength? (char :: (text ++ behind)) = none ∧ Silent text behind

/-- Pieces as the cut finds them, one after another, by the longest word at each place. -/
inductive Cuts : List Piece → Prop where
  | nil : Cuts []
  | literal {text : String} {rest : List Piece} : text ≠ "" →
      (∀ next, rest.head? ≠ some (.literal next)) → Silent text.toList (textOf rest) →
      Cuts rest → Cuts (.literal text :: rest)
  | placeholder {token : String} {rest : List Piece} : token ≠ "" →
      wordLength? (token.toList ++ textOf rest) = some token.length →
      Cuts rest → Cuts (.placeholder token :: rest)

section Cutting

variable {reading rest : List Piece} {text word behind : List Char}

@[simp] theorem textOf_nil : textOf [] = [] := rfl

@[simp] theorem textOf_cons (piece : Piece) (rest : List Piece) :
    textOf (piece :: rest) = piece.chars ++ textOf rest := rfl

theorem textOf_append (front back : List Piece) :
    textOf (front ++ back) = textOf front ++ textOf back :=
  List.flatMap_append

theorem silent_append (front : List Char) :
    Silent (front ++ text) behind ↔ Silent front (text ++ behind) ∧ Silent text behind := by
  induction front with
  | nil => exact (and_iff_right trivial).symm
  | cons char front ih => simp only [List.cons_append, Silent, ih, List.append_assoc, and_assoc]

theorem silent_iff : Silent text behind ↔
    ∀ offset < text.length, ∀ word, IsWord word → ¬ word <+: (text ++ behind).drop offset := by
  induction text with
  | nil => simp [Silent]
  | cons char text ih =>
    rw [Silent, ih, wordLength?_eq_none_iff]
    constructor
    · rintro ⟨here, later⟩ offset inside
      cases offset with
      | zero => exact here
      | succ offset => exact later offset (Nat.lt_of_succ_lt_succ inside)
    · intro wordless
      exact ⟨wordless 0 (Nat.succ_pos _),
        fun offset inside => wordless (offset + 1) (Nat.succ_lt_succ inside)⟩

theorem piecesFrom_skip (text : List Char) (skip : Nat) (input : List Char) :
    piecesFrom text skip input = piecesFrom text 0 (input.drop skip) := by
  induction input generalizing skip with
  | nil => rw [List.drop_nil, piecesFrom, piecesFrom]
  | cons char rest ih =>
    cases skip with
    | zero => rfl
    | succ skip => rw [piecesFrom, ih, List.drop_succ_cons]

theorem piecesFrom_silent (front : List Char) (silent : Silent text behind) :
    piecesFrom front 0 (text ++ behind) = piecesFrom (text.reverse ++ front) 0 behind := by
  induction text generalizing front with
  | nil => rfl
  | cons char text ih =>
    rw [List.cons_append, piecesFrom, silent.1]
    simp only [ih (char :: front) silent.2, List.reverse_cons, List.append_assoc,
      List.singleton_append]

theorem piecesFrom_word (front : List Char) (filled : word ≠ [])
    (found : wordLength? (word ++ behind) = some word.length) :
    piecesFrom front 0 (word ++ behind) =
      literalOf front ++ .placeholder (String.ofList word) :: piecesFrom [] 0 behind := by
  obtain ⟨char, word, rfl⟩ := List.exists_cons_of_ne_nil filled
  have taken : (char :: (word ++ behind)).take (word.length + 1) = char :: word := by simp
  have dropped : (word ++ behind).drop word.length = behind := List.drop_left
  rw [List.cons_append] at found ⊢
  rw [piecesFrom, found]
  simp only [List.length_cons, Nat.add_sub_cancel, taken, piecesFrom_skip [] word.length, dropped]

/-- A text is cut in one way only. -/
theorem Cuts.piecesFrom_eq (cuts : Cuts reading) (front : List Char)
    (ends : front = [] ∨ ∀ next, reading.head? ≠ some (.literal next)) :
    piecesFrom front 0 (textOf reading) = literalOf front ++ reading := by
  induction cuts generalizing front with
  | nil =>
    rw [List.append_nil]
    rfl
  | @literal literal rest filled next silent _ ih =>
    obtain rfl | ends := ends
    · have written : literalOf literal.toList.reverse = [.literal literal] := by
        simp [literalOf, filled]
      rw [textOf_cons, Piece.chars, piecesFrom_silent [] silent, List.append_nil, ih _ (.inr next),
        written]
      rfl
    · exact absurd rfl (ends literal)
  | @placeholder token rest filled found _ ih =>
    have some : token.toList ≠ [] := by simpa using filled
    rw [textOf_cons, Piece.chars, piecesFrom_word front some found, String.ofList_toList,
      ih [] (.inl rfl)]
    rfl

theorem cuts_literalOf (cuts : Cuts rest) (next : ∀ next, rest.head? ≠ some (.literal next))
    (silent : Silent text.reverse (textOf rest)) :
    Cuts (literalOf text ++ rest) ∧
      textOf (literalOf text ++ rest) = text.reverse ++ textOf rest := by
  unfold literalOf
  split
  next empty =>
    rw [List.isEmpty_iff] at empty
    rw [empty]
    exact ⟨cuts, rfl⟩
  next filled =>
    rw [List.isEmpty_iff] at filled
    have written : (String.ofList text.reverse).toList = text.reverse := String.toList_ofList
    constructor
    · refine .literal ?_ next ?_ cuts
      · simpa using filled
      · rwa [written]
    · simp [Piece.chars]

/-- What a cut gives, if no word begins in the text that it has behind it. -/
theorem cuts_piecesFrom (text input : List Char) (silent : Silent text.reverse input) :
    Cuts (piecesFrom text 0 input) ∧ textOf (piecesFrom text 0 input) = text.reverse ++ input := by
  -- A word is taken at once, so what is left is shorter by more than one character.
  induction size : input.length using Nat.strongRecOn generalizing text input with
  | ind bound ih =>
    cases input with
    | nil =>
      have cut := cuts_literalOf .nil (by simp) silent
      rwa [List.append_nil] at cut
    | cons char rest =>
      cases found : wordLength? (char :: rest) with
      | none =>
        have longer : Silent (char :: text).reverse rest := by
          rw [List.reverse_cons, silent_append]
          exact ⟨silent, found, trivial⟩
        have cut := ih rest.length (by simp [← size]) (char :: text) rest longer rfl
        rw [piecesFrom, found]
        simpa using cut
      | some length =>
        obtain ⟨word, after, isWord, split, rfl⟩ := exists_isWord_of_wordLength? found
        have filled := isWord.ne_nil
        rw [split] at found silent ⊢
        have shorter : after.length < bound := by
          have positive := List.length_pos_iff.mpr filled
          have total := congrArg List.length split
          rw [size, List.length_append] at total
          omega
        obtain ⟨cuts, joined⟩ := ih after.length shorter [] after trivial rfl
        rw [List.reverse_nil, List.nil_append] at joined
        have token : textOf (.placeholder (String.ofList word) :: piecesFrom [] 0 after) =
            word ++ after := by
          simp [Piece.chars, joined]
        have some : String.ofList word ≠ "" := by simpa using filled
        rw [piecesFrom_word text filled found]
        rw [← token] at silent ⊢
        refine cuts_literalOf (.placeholder some ?_ cuts) (by simp) silent
        simpa [joined] using found

theorem Cuts.suffix {front : List Piece} (cuts : Cuts (front ++ rest)) : Cuts rest := by
  induction front with
  | nil => exact cuts
  | cons piece front ih => cases cuts with
    | literal _ _ _ cuts => exact ih cuts
    | placeholder _ _ cuts => exact ih cuts

theorem Cuts.reads (cuts : Cuts reading) {source : String}
    (joined : textOf reading = source.toList) : Reads source reading where
  joined := joined
  filled member := by
    obtain ⟨front, back, rfl⟩ := List.mem_iff_append.mp member
    cases cuts.suffix with
    | literal filled => exact filled rfl
  apart := by
    rintro first second ⟨front, back, rfl⟩
    rw [List.append_assoc] at cuts
    cases cuts.suffix with
    | literal _ next => exact next second rfl
  words token member := by
    obtain ⟨front, back, rfl⟩ := List.mem_iff_append.mp member
    cases cuts.suffix with
    | placeholder _ found => exact (wordLength?_append_eq_some_iff.mp found).1
  silent := by
    rintro front text back rfl offset above below word isWord
    obtain ⟨place, rfl⟩ := Nat.exists_eq_add_of_le above
    rw [← joined, textOf_append, List.drop_length_add_append]
    cases cuts.suffix with
    | literal _ _ silent =>
      refine silent_iff.mp silent place ?_ word isWord
      rw [String.length_toList]
      omega
  longest := by
    rintro front token back rfl word isWord within
    rw [← joined, textOf_append, List.drop_left] at within
    cases cuts.suffix with
    | placeholder _ found => exact (wordLength?_append_eq_some_iff.mp found).2 word isWord within

theorem Reads.cuts {source : String} (reads : Reads source reading) : Cuts reading := by
  have suffixes : ∀ front rest, reading = front ++ rest → Cuts rest := by
    intro front rest split
    induction rest generalizing front with
    | nil => exact .nil
    | cons piece rest ih =>
      have cuts := ih (front ++ [piece]) (by simp [split])
      have behind : source.toList = textOf front ++ (piece.chars ++ textOf rest) := by
        rw [← reads.joined, split, textOf_append, textOf_cons]
      cases piece with
      | literal text =>
        have member : .literal text ∈ reading := by simp [split]
        refine .literal ?_ ?_ ?_ cuts
        · rintro rfl
          exact reads.filled member
        · intro next first
          obtain ⟨more, rfl⟩ := List.head?_eq_some_iff.mp first
          exact reads.apart text next ⟨front, more, by simp [split]⟩
        · rw [silent_iff]
          intro offset inside word isWord within
          rw [String.length_toList] at inside
          have above := Nat.le_add_right (textOf front).length offset
          refine reads.silent front text rest split _ above (by omega) word isWord ?_
          rwa [behind, List.drop_length_add_append]
      | placeholder token =>
        have member : .placeholder token ∈ reading := by simp [split]
        have isWord := reads.words token member
        refine .placeholder ?_ (wordLength?_append_eq_some_iff.mpr ⟨isWord, ?_⟩) cuts
        · simpa using isWord.ne_nil
        · intro word other within
          refine reads.longest front token rest split word other ?_
          rwa [behind, List.drop_left]
  exact suffixes [] reading rfl

theorem reads_iff_eq_pieces {source : String} : Reads source reading ↔ reading = pieces source := by
  constructor
  · intro reads
    have cut := reads.cuts.piecesFrom_eq [] (.inl rfl)
    rw [reads.joined] at cut
    exact cut.symm
  · rintro rfl
    obtain ⟨cuts, joined⟩ := cuts_piecesFrom [] source.toList trivial
    exact cuts.reads joined

theorem single?_pieces_eq_some_iff {source token : String} :
    single? (pieces source) = some token ↔ IsWord source.toList ∧ token = source := by
  constructor
  · intro single
    have reads := reads_iff_eq_pieces.mpr (eq_of_single? single).symm
    have same : token = source :=
      String.toList_inj.mp (by simpa [Piece.chars] using reads.joined)
    exact ⟨same ▸ reads.words token List.mem_cons_self, same⟩
  · rintro ⟨isWord, rfl⟩
    have filled : token ≠ "" := by simpa using isWord.ne_nil
    have cuts : Cuts [.placeholder token] := by
      refine .placeholder filled ?_ .nil
      rw [textOf_nil, List.append_nil, ← String.length_toList]
      exact wordLength?_eq_length_iff.mpr isWord
    rw [← reads_iff_eq_pieces.mp (cuts.reads (by simp [Piece.chars]))]
    rfl

end Cutting

/-- Cutting a template gives the one reading of it, and a template is a single placeholder if and
only if all of it is a word. -/
theorem pieces_read_uniquely (source : String) :
    (∀ reading, Reads source reading ↔ reading = pieces source) ∧
      ∀ token, single? (pieces source) = some token ↔ IsWord source.toList ∧ token = source :=
  ⟨fun _ => reads_iff_eq_pieces, fun _ => single?_pieces_eq_some_iff⟩

example : pieces "___A____B__$\x7btags[-1]\x7d $\x7btags[]\x7d" =
    [.placeholder "___A____B__", .placeholder "$\x7btags[-1]\x7d",
      .literal " $\x7btags[]\x7d"] := by
  decide +kernel

end Recast.Template
