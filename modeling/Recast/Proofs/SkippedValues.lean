import Recast.Json.Skipper
import Recast.Proofs.ValueGrammar

set_option autoImplicit false

/-!
# Skipped JSON values

A value that nobody needs is skipped exactly if it is one by a wider grammar: its texts may name
halves of surrogate pairs, its numbers may have any size, and it may nest without limit.
-/

namespace Recast.Json

/-- A text up to its closing quote, whatever characters its escapes name. -/
inductive LooseText : List Char → List Char → Prop where
  | close (rest : List Char) : LooseText ('"' :: rest) rest
  | plain {char : Char} {input rest : List Char} (visible : 0x20 ≤ char.toNat)
      (noQuote : char ≠ '"') (noSlash : char ≠ '\\') (others : LooseText input rest) :
      LooseText (char :: input) rest
  | letter {char meaning : Char} {input rest : List Char}
      (short : shortEscape? char = some meaning) (others : LooseText input rest) :
      LooseText ('\\' :: char :: input) rest
  | code {input middle rest : List Char} {code : Nat} (digits : Hex4 input code middle)
      (others : LooseText middle rest) : LooseText ('\\' :: 'u' :: input) rest

/-- The forms of a value that is skipped; nothing is kept of it. -/
def loose : Forms Unit Unit where
  null := ()
  bool _ := ()
  Text input _ rest := LooseText input rest
  Number _ input _ rest := ∃ numeral, Unsigned input numeral rest
  Key input _ rest := LooseText input rest
  array _ := ()
  object _ := ()

/-! ## Texts -/

theorem LooseText.length_lt {input rest : List Char} (text : LooseText input rest) :
    rest.length < input.length := by
  induction text with
  | close => exact Nat.lt_succ_self _
  | plain _ _ _ _ ih => exact Nat.lt_succ_of_lt ih
  | letter _ _ ih => exact Nat.lt_succ_of_lt (Nat.lt_succ_of_lt ih)
  | code digits _ ih =>
    exact Nat.lt_succ_of_lt (Nat.lt_succ_of_lt (Nat.lt_trans ih digits.length_lt))

theorem looseText_of_skipText {fuel : Nat} {input rest : List Char}
    (skipped : skipText fuel input = .ok rest) : LooseText input rest := by
  fun_induction skipText fuel input generalizing rest with
  | case1 => cases skipped
  | case2 => cases skipped
  | case3 => cases skipped; exact .close _
  | case4 => cases skipped
  | case5 fuel input ih =>
    obtain ⟨⟨code, middle⟩, digits, skipped⟩ := bind_eq_ok_iff.mp skipped
    exact .code (readHex4_eq_ok_iff.mp digits) (ih _ skipped)
  | case6 fuel char input _ short ih =>
    obtain ⟨meaning, short⟩ := Option.isSome_iff_exists.mp short
    exact .letter short (ih skipped)
  | case7 => cases skipped
  | case8 => cases skipped
  | case9 fuel char input noQuote noEnd noCode noEscape visible ih =>
    have noSlash : char ≠ '\\' := by
      rintro rfl
      cases input with
      | nil => exact noEnd rfl rfl
      | cons escaped rest => exact noEscape escaped rest rfl rfl
    exact .plain (Nat.le_of_not_lt visible) noQuote noSlash (ih skipped)

theorem LooseText.skipText_eq {input rest : List Char} (text : LooseText input rest) {fuel : Nat}
    (enough : input.length < fuel) : skipText fuel input = .ok rest := by
  induction text generalizing fuel with
  | close =>
    obtain ⟨fuel, rfl⟩ := Nat.exists_eq_add_one.mpr (Nat.zero_lt_of_lt enough)
    simp [skipText]
  | plain visible noQuote noSlash _ ih =>
    obtain ⟨fuel, rfl⟩ := Nat.exists_eq_add_one.mpr (Nat.zero_lt_of_lt enough)
    simpa [skipText, noQuote, noSlash, Nat.not_lt.mpr visible] using
      ih (Nat.lt_of_succ_lt_succ enough)
  | @letter char meaning input rest short _ ih =>
    obtain ⟨fuel, rfl⟩ := Nat.exists_eq_add_one.mpr (Nat.zero_lt_of_lt enough)
    have noCode : char ≠ 'u' := by
      rintro rfl
      cases short
    simp only [List.length_cons] at enough
    simpa [skipText, noCode, short] using ih (by omega)
  | code digits _ ih =>
    obtain ⟨fuel, rfl⟩ := Nat.exists_eq_add_one.mpr (Nat.zero_lt_of_lt enough)
    have shorter := digits.length_lt
    simp only [List.length_cons] at enough
    simpa [skipText, readHex4_eq_ok_iff.mpr digits, bind, Except.bind] using ih (by omega)

/-! ## Numbers -/

theorem skipDigits_eq_ok_iff {input rest : List Char} :
    skipDigits input = .ok rest ↔ ∃ digits, Digits input digits rest ∧ NoDigit rest := by
  unfold skipDigits
  constructor
  · intro skipped
    split at skipped
    next => cases skipped
    next filled =>
      cases skipped
      exact ⟨_, digits_takeWhile (by simpa using filled), noDigit_dropWhile input⟩
  · rintro ⟨digits, found, stops⟩
    obtain ⟨taken, left⟩ := found.split stops
    simp [taken, left, found.filled]

theorem exponent_of_skipExponent {input rest : List Char}
    (skipped : skipExponent input = .ok rest) : ∃ power, Exponent input power rest := by
  unfold skipExponent at skipped
  split at skipped
  next mark after =>
    split at skipped
    next isMark =>
      split at skipped <;> obtain ⟨digits, found, _⟩ := skipDigits_eq_ok_iff.mp skipped
      · exact ⟨_, .present isMark (.positive found)⟩
      · exact ⟨_, .present isMark (.negative found)⟩
      · exact ⟨_, .present isMark (.unsigned found)⟩
    next =>
      cases skipped
      exact ⟨none, .absent _⟩
  next =>
    cases skipped
    exact ⟨none, .absent _⟩

theorem Exponent.skipExponent_eq {input rest : List Char} {power : Option (Bool × List Char)}
    (found : Exponent input power rest) (stops : StopsNumber rest) :
    skipExponent input = .ok rest := by
  have noDigit : NoDigit rest := fun char first => (stops char first).1
  cases found with
  | absent =>
    cases input with
    | nil => rfl
    | cons char rest => simp [skipExponent, (stops char rfl).2.2]
  | present isMark power =>
    cases power with
    | unsigned found =>
      have skipped := skipDigits_eq_ok_iff.mpr ⟨_, found, noDigit⟩
      obtain ⟨digit, others, rfl, isDigit⟩ := found.head
      have noPlus : digit ≠ '+' := ne_of_isDigit isDigit rfl
      have noMinus : digit ≠ '-' := ne_of_isDigit isDigit rfl
      simp [skipExponent, isMark, noPlus, noMinus, skipped]
    | positive found | negative found =>
      simp [skipExponent, isMark, skipDigits_eq_ok_iff.mpr ⟨_, found, noDigit⟩]

theorem unsigned_of_skipNumber {input rest : List Char} (skipped : skipNumber input = .ok rest) :
    ∃ numeral, Unsigned input numeral rest := by
  unfold skipNumber at skipped
  obtain ⟨middle, front, skipped⟩ := bind_eq_ok_iff.mp skipped
  obtain ⟨whole, front, stops⟩ := skipDigits_eq_ok_iff.mp front
  rw [(front.split stops).1] at skipped
  split at skipped
  next => cases skipped
  next unpadded =>
    split at skipped
    next after =>
      obtain ⟨last, behind, skipped⟩ := bind_eq_ok_iff.mp skipped
      obtain ⟨digits, behind, _⟩ := skipDigits_eq_ok_iff.mp behind
      obtain ⟨power, scale⟩ := exponent_of_skipExponent skipped
      exact ⟨⟨whole, some digits, power⟩, .parts front unpadded (.present behind) scale⟩
    next =>
      obtain ⟨power, scale⟩ := exponent_of_skipExponent skipped
      exact ⟨⟨whole, none, power⟩, .parts front unpadded (.absent _) scale⟩

theorem Unsigned.skipNumber_eq {input rest : List Char} {numeral : Numeral}
    (found : Unsigned input numeral rest) (stops : StopsNumber rest) :
    skipNumber input = .ok rest := by
  obtain ⟨front, unpadded, after, scale⟩ := found
  obtain ⟨noDigit, noPoint⟩ := scale.stops stops
  have inner := after.noDigit noDigit
  have whole := skipDigits_eq_ok_iff.mpr ⟨_, front, inner⟩
  simp only [skipNumber, (front.split inner).1, whole, bind, Except.bind]
  cases after with
  | present behind =>
    simp only [skipDigits_eq_ok_iff.mpr ⟨_, behind, noDigit⟩]
    exact scale.skipExponent_eq stops
  | absent =>
    split
    next => exact absurd rfl noPoint
    next => exact scale.skipExponent_eq stops

/-! ## What is skipped is a value -/

theorem loose_isProper : loose.IsProper where
  text := LooseText.length_lt
  key := LooseText.length_lt
  number := fun ⟨_, found⟩ => found.shorter

mutual

theorem isValue_of_skipValue : ∀ (fuel : Nat) {input rest : List Char},
    skipValue fuel input = .ok rest → IsValue loose fuel input () rest
  | 0, _, _, skipped => by simp [skipValue] at skipped
  | fuel + 1, input, rest, skipped => by
    unfold skipValue at skipped
    split at skipped
    next => cases skipped
    next left =>
      obtain rfl := readWord_eq_ok_iff.mp skipped
      exact ⟨_, blanks_of_skipBlanks left, .inl (.null rest)⟩
    next left =>
      obtain rfl := readWord_eq_ok_iff.mp skipped
      exact ⟨_, blanks_of_skipBlanks left, .inl (.isTrue rest)⟩
    next left =>
      obtain rfl := readWord_eq_ok_iff.mp skipped
      exact ⟨_, blanks_of_skipBlanks left, .inl (.isFalse rest)⟩
    next left => exact ⟨_, blanks_of_skipBlanks left, .inl (.text (looseText_of_skipText skipped))⟩
    next left =>
      exact ⟨_, blanks_of_skipBlanks left, .inl (.negative (unsigned_of_skipNumber skipped))⟩
    next inner left =>
      split at skipped
      next bracket =>
        cases skipped
        exact ⟨_, blanks_of_skipBlanks left, .inr (.array (.empty (blanks_of_skipBlanks bracket)))⟩
      next =>
        obtain ⟨middle, first, others⟩ := bind_eq_ok_iff.mp skipped
        obtain ⟨items, others⟩ := tail_of_skipMoreItems fuel others
        have first := (isValue_of_skipValue fuel first).after (blanks_skipBlanks inner)
        exact ⟨_, blanks_of_skipBlanks left, .inr (.array (.filled first others))⟩
    next inner left =>
      split at skipped
      next bracket =>
        cases skipped
        exact ⟨_, blanks_of_skipBlanks left, .inr (.object (.empty (blanks_of_skipBlanks bracket)))⟩
      next =>
        obtain ⟨entry, others, middle, first, behind⟩ := members_of_skipMember fuel skipped
        exact ⟨_, blanks_of_skipBlanks left,
          .inr (.object (.filled (first.after (blanks_skipBlanks inner)) behind))⟩
    next left =>
      split at skipped
      next =>
        exact ⟨_, blanks_of_skipBlanks left, .inl (.number (unsigned_of_skipNumber skipped))⟩
      next => cases skipped

theorem tail_of_skipMoreItems : ∀ (fuel : Nat) {input rest : List Char},
    skipMoreItems fuel input = .ok rest → ∃ items, Tail (IsValue loose fuel) ']' input items rest
  | 0, _, _, skipped => by simp [skipMoreItems] at skipped
  | fuel + 1, input, rest, skipped => by
    unfold skipMoreItems at skipped
    split at skipped
    next => cases skipped
    next left =>
      cases skipped
      exact ⟨[], .close (blanks_of_skipBlanks left)⟩
    next left =>
      obtain ⟨middle, first, others⟩ := bind_eq_ok_iff.mp skipped
      obtain ⟨items, others⟩ := tail_of_skipMoreItems fuel others
      exact ⟨() :: items, .more (blanks_of_skipBlanks left) (isValue_of_skipValue fuel first).succ
        (others.imp IsValue.succ)⟩
    next => cases skipped

theorem members_of_skipMember : ∀ (fuel : Nat) {input rest : List Char},
    skipMember fuel input = .ok rest → ∃ entry others middle,
      Entry loose.Key (IsValue loose fuel) input entry middle ∧
        Tail (Entry loose.Key (IsValue loose fuel)) '}' middle others rest
  | 0, _, _, skipped => by simp [skipMember] at skipped
  | fuel + 1, input, rest, skipped => by
    unfold skipMember at skipped
    split at skipped
    next => cases skipped
    next quote =>
      obtain ⟨after, key, skipped⟩ := bind_eq_ok_iff.mp skipped
      obtain ⟨behind, colon, skipped⟩ := bind_eq_ok_iff.mp skipped
      obtain ⟨middle, element, skipped⟩ := bind_eq_ok_iff.mp skipped
      have entry : Entry loose.Key (IsValue loose (fuel + 1)) input ((), ()) middle :=
        .pair (blanks_of_skipBlanks quote) (looseText_of_skipText key)
          (readColon_eq_ok_iff.mp colon) (isValue_of_skipValue fuel element).succ
      split at skipped
      next => cases skipped
      next left =>
        cases skipped
        exact ⟨_, [], middle, entry, .close (blanks_of_skipBlanks left)⟩
      next left =>
        obtain ⟨next, others, last, first, behind⟩ := members_of_skipMember fuel skipped
        exact ⟨_, next :: others, middle, entry, .more (blanks_of_skipBlanks left)
          (first.imp IsValue.succ) (behind.imp (Entry.imp IsValue.succ))⟩
      next => cases skipped
    next => cases skipped

end

/-! ## A value is skipped -/

section Skips

variable {fuel depth : Nat} {input rest : List Char}

theorem skipValue_skipBlanks (fuel : Nat) (input : List Char) :
    skipValue fuel (skipBlanks input) = skipValue fuel input := by
  cases fuel <;> simp [skipValue]

theorem skipMember_skipBlanks (fuel : Nat) (input : List Char) :
    skipMember fuel (skipBlanks input) = skipMember fuel input := by
  cases fuel <;> simp [skipMember]

theorem skipValue_digit {digit : Char} (isDigit : digit.isDigit = true) (fuel : Nat)
    (rest : List Char) : skipValue (fuel + 1) (digit :: rest) = skipNumber (digit :: rest) := by
  have other : ∀ sign : Char, sign.isDigit = false → digit ≠ sign :=
    fun _ noDigit => ne_of_isDigit isDigit noDigit
  simp [skipValue, skipBlanks_cons (isJsonBlank_of_isDigit isDigit), isDigit, other 'n' rfl,
    other 't' rfl, other 'f' rfl, other '"' rfl, other '-' rfl, other '[' rfl, other '{' rfl]

theorem Scalar.skipValue_eq {front : List Char} (blanks : Blanks input front)
    (scalar : Scalar loose front () rest) (stops : StopsNumber rest) :
    skipValue (fuel + 1) input = .ok rest := by
  cases scalar with
  | null | isTrue | isFalse =>
    have left := blanks.first rfl
    simp only [skipValue, left]
    exact readWord_eq_ok_iff.mpr rfl
  | text found =>
    have left := blanks.first rfl
    simp only [skipValue, left]
    exact LooseText.skipText_eq found (Nat.lt_succ_self _)
  | negative found =>
    obtain ⟨numeral, found⟩ := found
    have left := blanks.first rfl
    simp only [skipValue, left]
    exact found.skipNumber_eq stops
  | number found =>
    obtain ⟨numeral, found⟩ := found
    obtain ⟨_, digit, others, rfl, isDigit⟩ := found.shorter
    have same : skipBlanks (digit :: others) = skipBlanks input := blanks.skipBlanks_eq.symm
    have skipped := skipValue_digit isDigit fuel others
    rw [skipValue, same] at skipped
    rw [skipValue, skipped, found.skipNumber_eq stops]

/-- Values of a depth are skipped if there is fuel for all their characters. -/
def AllSkipped (depth : Nat) : Prop :=
  ∀ {fuel : Nat} {input rest : List Char}, IsValue loose depth input () rest → StopsNumber rest →
    3 * input.length + 1 ≤ fuel → skipValue fuel input = .ok rest

theorem Tail.skipMoreItems_eq {items : List Unit} (inner : AllSkipped depth)
    (tail : Tail (IsValue loose depth) ']' input items rest)
    (enough : 3 * input.length + 1 ≤ fuel) : skipMoreItems fuel input = .ok rest := by
  induction tail generalizing fuel with
  | close bracket =>
    obtain ⟨fuel, rfl⟩ := Nat.exists_eq_add_one.mpr (Nat.zero_lt_of_lt enough)
    have left := bracket.first rfl
    simp [skipMoreItems, left]
  | more comma element others ih =>
    obtain ⟨fuel, rfl⟩ := Nat.exists_eq_add_one.mpr (Nat.zero_lt_of_lt enough)
    have left := comma.first rfl
    have length := comma.length_le
    have shorter := (element.front loose_isProper).1
    simp only [List.length_cons] at length
    have first := inner element (others.stopsNumber (.inl rfl)) (show _ ≤ fuel by omega)
    have behind := ih (show _ ≤ fuel by omega)
    simp [skipMoreItems, left, first, behind, bind, Except.bind]

/-- A member is skipped, and what follows it decides how to go on. -/
theorem Entry.skipMember_eq {entry : Unit × Unit} {middle : List Char} (inner : AllSkipped depth)
    (first : Entry loose.Key (IsValue loose depth) input entry middle) (stops : StopsNumber middle)
    (enough : 3 * input.length ≤ fuel) :
    (skipBlanks middle = '}' :: rest → skipMember (fuel + 1) input = .ok rest) ∧
      (skipBlanks middle = ',' :: rest → skipMember (fuel + 1) input = skipMember fuel rest) := by
  obtain ⟨quote, key, colon, element⟩ := first
  have lengths := And.intro quote.length_le colon.length_le
  have shorter := loose_isProper.key key
  simp only [List.length_cons] at lengths
  have value := inner element stops (show _ ≤ fuel by omega)
  have text := LooseText.skipText_eq key (Nat.lt_succ_self _)
  have afterColon := readColon_eq_ok_iff.mpr colon
  constructor <;> intro left <;>
    simp [skipMember, quote.first rfl, text, afterColon, value, left, bind, Except.bind]

theorem skipMember_eq {entry : Unit × Unit} {entries : List (Unit × Unit)} {middle : List Char}
    (inner : AllSkipped depth) (first : Entry loose.Key (IsValue loose depth) input entry middle)
    (others : Tail (Entry loose.Key (IsValue loose depth)) '}' middle entries rest)
    (enough : 3 * input.length + 1 ≤ fuel) : skipMember fuel input = .ok rest := by
  induction others generalizing fuel input entry with
  | close bracket =>
    obtain ⟨fuel, rfl⟩ := Nat.exists_eq_add_one.mpr (Nat.zero_lt_of_lt enough)
    have stops := stopsNumber_of_blanks bracket rfl (by decide) rfl
    exact (first.skipMember_eq inner stops (Nat.le_of_succ_le_succ enough)).1
      (bracket.first rfl)
  | more comma next others ih =>
    obtain ⟨fuel, rfl⟩ := Nat.exists_eq_add_one.mpr (Nat.zero_lt_of_lt enough)
    have stops := stopsNumber_of_blanks comma rfl (by decide) rfl
    have shorter := first.length_lt LooseText.length_lt fun found => (found.front loose_isProper).1
    have length := comma.length_le
    simp only [List.length_cons] at length
    rw [(first.skipMember_eq inner stops (Nat.le_of_succ_le_succ enough)).2
      (comma.first rfl)]
    exact ih next (by omega)

/-- A value is skipped up to a text that adds nothing to a number. -/
theorem allSkipped (depth : Nat) : AllSkipped depth := by
  induction depth using Nat.strongRecOn with
  | ind depth ih =>
    intro fuel input rest found stops enough
    obtain ⟨fuel, rfl⟩ := Nat.exists_eq_add_one.mpr (Nat.zero_lt_of_lt enough)
    obtain ⟨front, blanks, scalar | ⟨lower, rfl, container⟩⟩ := isValue_iff.mp found
    · exact scalar.skipValue_eq blanks stops
    · have inner : AllSkipped lower := ih lower (Nat.lt_succ_self lower)
      have length := blanks.length_le
      cases container with
      | array series =>
        have left := blanks.first rfl
        simp only [List.length_cons] at length
        cases series with
        | empty bracket => simp [skipValue, left, bracket.first rfl]
        | filled element others =>
          obtain ⟨shorter, char, front, filled, noBracket⟩ := element.front loose_isProper
          have first := inner element (others.stopsNumber (.inl rfl)) (show _ ≤ fuel by omega)
          have behind := others.skipMoreItems_eq inner (show _ ≤ fuel by omega)
          rw [← skipValue_skipBlanks, filled] at first
          simp [skipValue, left, filled, noBracket, first, behind, bind, Except.bind]
      | object series =>
        have left := blanks.first rfl
        simp only [List.length_cons] at length
        cases series with
        | empty bracket => simp [skipValue, left, bracket.first rfl]
        | filled element others =>
          have members := skipMember_eq inner element others (show _ ≤ fuel by omega)
          obtain ⟨quote, _, _, _⟩ := element
          have filled := quote.first rfl
          rw [← skipMember_skipBlanks, filled] at members
          simp [skipValue, left, filled, members]

/-- A value of any depth that is skipped. -/
def IsSkipped (input : List Char) (_ : Unit) (rest : List Char) : Prop :=
  ∃ depth, IsValue loose depth input () rest

theorem isSkipped_of_skipValue (skipped : skipValue fuel input = .ok rest) :
    IsSkipped input () rest :=
  ⟨fuel, isValue_of_skipValue fuel skipped⟩

theorem IsSkipped.skipValue_eq (found : IsSkipped input () rest) (stops : StopsNumber rest)
    (enough : 3 * input.length + 1 ≤ fuel) : skipValue fuel input = .ok rest := by
  obtain ⟨depth, found⟩ := found
  exact allSkipped depth found stops enough

theorem IsSkipped.length_lt {value : Unit} (found : IsSkipped input value rest) :
    rest.length < input.length := by
  obtain ⟨depth, found⟩ := found
  exact (found.front loose_isProper).1

end Skips

end Recast.Json
