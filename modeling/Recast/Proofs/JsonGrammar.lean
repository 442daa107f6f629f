import Recast.Proofs.WrittenValues

set_option autoImplicit false

/-!
# The grammar of JSON texts

What a text begins with, as judgements on a text and on what is left of it: blanks and quoted texts.
The readers of words and texts read exactly this.
-/

namespace Recast

section Outcome

variable {ε α β : Type} {outcome : Except ε α}

theorem bind_eq_ok_iff {next : α → Except ε β} {result : β} :
    (outcome >>= next) = .ok result ↔ ∃ value, outcome = .ok value ∧ next value = .ok result := by
  cases outcome <;> simp [bind, Except.bind]

theorem map_eq_ok_iff {f : α → β} {result : β} :
    outcome.map f = .ok result ↔ ∃ value, outcome = .ok value ∧ f value = result := by
  cases outcome <;> simp [Except.map]

theorem toOption_eq_some_iff {value : α} : outcome.toOption = some value ↔ outcome = .ok value := by
  cases outcome <;> simp [Except.toOption]

end Outcome

namespace Json

/-! ## Judgements -/

/-- Blanks at the front of a text. -/
inductive Blanks : List Char → List Char → Prop where
  | none (rest : List Char) : Blanks rest rest
  | more {char : Char} {input rest : List Char} (blank : isJsonBlank char = true)
      (others : Blanks input rest) : Blanks (char :: input) rest

/-- Four hexadecimal digits and their number. -/
inductive Hex4 : List Char → Nat → List Char → Prop where
  | digits {a b c d : Char} {w x y z : Nat} (first : hexValue? a = some w)
      (second : hexValue? b = some x) (third : hexValue? c = some y) (fourth : hexValue? d = some z)
      (rest : List Char) : Hex4 (a :: b :: c :: d :: rest) (((w * 16 + x) * 16 + y) * 16 + z) rest

/-- What may follow a backslash, and the character it stands for: a letter, a number, or the numbers
of both halves of a pair. -/
inductive Escape : List Char → Char → List Char → Prop where
  | letter {char meaning : Char} (short : shortEscape? char = some meaning) (rest : List Char) :
      Escape (char :: rest) meaning rest
  | code {input rest : List Char} {code : Nat} (digits : Hex4 input code rest)
      (noLow : isLowSurrogate code = false) (noHigh : isHighSurrogate code = false) :
      Escape ('u' :: input) (Char.ofNat code) rest
  | pair {input middle rest : List Char} {high low : Nat}
      (first : Hex4 input high ('\\' :: 'u' :: middle)) (isHigh : isHighSurrogate high = true)
      (second : Hex4 middle low rest) (isLow : isLowSurrogate low = true) :
      Escape ('u' :: input)
        (Char.ofNat ((high - 0xD800) * 1024 + (low - 0xDC00) + 0x10000)) rest

/-- A text up to its closing quote, after the opening one, and its content. -/
inductive Quoted : List Char → List Char → List Char → Prop where
  | close (rest : List Char) : Quoted ('"' :: rest) [] rest
  | plain {char : Char} {input content rest : List Char} (visible : 0x20 ≤ char.toNat)
      (noQuote : char ≠ '"') (noSlash : char ≠ '\\') (others : Quoted input content rest) :
      Quoted (char :: input) (char :: content) rest
  | escape {char : Char} {input middle content rest : List Char}
      (escaped : Escape input char middle) (others : Quoted middle content rest) :
      Quoted ('\\' :: input) (char :: content) rest

/-! ## Blanks and signs -/

theorem blanks_skipBlanks (input : List Char) : Blanks input (skipBlanks input) := by
  induction input with
  | nil => exact .none []
  | cons char rest ih =>
    cases blank : isJsonBlank char with
    | false =>
      rw [skipBlanks_cons blank]
      exact .none _
    | true =>
      have dropped : skipBlanks (char :: rest) = skipBlanks rest := by simp [skipBlanks, blank]
      exact dropped ▸ .more blank ih

theorem Blanks.skipBlanks_eq {input rest : List Char} (blanks : Blanks input rest) :
    skipBlanks input = skipBlanks rest := by
  induction blanks with
  | none => rfl
  | more blank _ ih =>
    rw [← ih]
    simp [skipBlanks, blank]

@[simp] theorem skipBlanks_skipBlanks (input : List Char) :
    skipBlanks (skipBlanks input) = skipBlanks input :=
  (blanks_skipBlanks input).skipBlanks_eq.symm

theorem Blanks.trans {input middle rest : List Char} (blanks : Blanks input middle)
    (others : Blanks middle rest) : Blanks input rest := by
  induction blanks with
  | none => exact others
  | more blank _ ih => exact .more blank (ih others)

theorem skipBlanks_eq_cons_iff {input rest : List Char} {char : Char} :
    skipBlanks input = char :: rest ↔ Blanks input (char :: rest) ∧ isJsonBlank char = false := by
  constructor
  · intro left
    have front := List.head?_dropWhile_not isJsonBlank input
    rw [show input.dropWhile isJsonBlank = char :: rest from left] at front
    exact ⟨left ▸ blanks_skipBlanks input, front⟩
  · rintro ⟨blanks, filled⟩
    rw [blanks.skipBlanks_eq, skipBlanks_cons filled]

/-- The first character that is no blank. -/
theorem Blanks.first {input rest : List Char} {char : Char} (blanks : Blanks input (char :: rest))
    (filled : isJsonBlank char = false) : skipBlanks input = char :: rest :=
  skipBlanks_eq_cons_iff.mpr ⟨blanks, filled⟩

theorem skipBlanks_eq_nil_iff {input : List Char} : skipBlanks input = [] ↔ Blanks input [] :=
  ⟨fun left => left ▸ blanks_skipBlanks input, fun blanks => blanks.skipBlanks_eq⟩

theorem Blanks.length_le {input rest : List Char} (blanks : Blanks input rest) :
    rest.length ≤ input.length := by
  induction blanks with
  | none => exact Nat.le_refl _
  | more _ _ ih => exact Nat.le_succ_of_le ih

theorem readColon_eq_ok_iff {input rest : List Char} :
    readColon input = .ok rest ↔ Blanks input (':' :: rest) := by
  have colon : skipBlanks input = ':' :: rest ↔ Blanks input (':' :: rest) :=
    skipBlanks_eq_cons_iff.trans (and_iff_left rfl)
  rw [← colon, readColon]
  split
  next none => simp [none]
  next found => simp [found]
  next char others noColon found => simp_all

theorem readWord_eq_ok_iff {word input rest : List Char} :
    readWord word input = .ok rest ↔ input = word ++ rest := by
  induction word generalizing input with
  | nil => simp [readWord]
  | cons expected word ih =>
    cases input with
    | nil => simp [readWord]
    | cons char input =>
      by_cases same : expected = char
      · simp [readWord, same, ih]
      · simp [readWord, same, Ne.symm same]

theorem map_readWord_eq_ok_iff {α : Type} {word input rest : List Char} {meaning value : α} :
    (readWord word input).map (fun rest => (meaning, rest)) = .ok (value, rest) ↔
      value = meaning ∧ input = word ++ rest := by
  rw [map_eq_ok_iff, ← readWord_eq_ok_iff]
  constructor
  · rintro ⟨last, read, same⟩
    cases same
    exact ⟨rfl, read⟩
  · rintro ⟨rfl, read⟩
    exact ⟨rest, read, rfl⟩

theorem readEnd_eq_ok_iff {input : List Char} : readEnd input = .ok () ↔ Blanks input [] := by
  rw [← skipBlanks_eq_nil_iff, readEnd]
  cases skipBlanks input <;> simp

/-! ## Texts -/

theorem readHex4_eq_ok_iff {input rest : List Char} {code : Nat} :
    readHex4 input = .ok (code, rest) ↔ Hex4 input code rest := by
  constructor
  · intro read
    unfold readHex4 at read
    split at read
    next a b c d others =>
      split at read
      next w x y z first second third fourth =>
        cases read
        exact .digits first second third fourth _
      next => cases read
    next => cases read
  · rintro ⟨first, second, third, fourth, _⟩
    simp only [readHex4, first, second, third, fourth]

theorem isLowSurrogate_of_isHighSurrogate {code : Nat} (isHigh : isHighSurrogate code = true) :
    isLowSurrogate code = false := by
  simp only [isHighSurrogate, isLowSurrogate, Bool.and_eq_true, decide_eq_true_eq,
    Bool.and_eq_false_iff, decide_eq_false_iff_not] at isHigh ⊢
  omega

theorem readCodePoint_eq_ok_iff {input rest : List Char} {char : Char} :
    readCodePoint input = .ok (char, rest) ↔ Escape ('u' :: input) char rest := by
  constructor
  · intro read
    obtain ⟨⟨high, middle⟩, first, read⟩ := bind_eq_ok_iff.mp read
    have first := readHex4_eq_ok_iff.mp first
    dsimp only at read
    split at read
    next => cases read
    next noLow =>
    split at read
    next isHigh =>
      split at read
      next => cases read
      next => cases read
      next after =>
        obtain ⟨⟨low, last⟩, second, read⟩ := bind_eq_ok_iff.mp read
        dsimp only at read
        split at read
        next isLow =>
          simp only [Except.ok.injEq, Prod.mk.injEq] at read
          obtain ⟨rfl, rfl⟩ := read
          exact .pair first isHigh (readHex4_eq_ok_iff.mp second) isLow
        next => cases read
      next => cases read
    next noHigh =>
      cases read
      exact .code first (Bool.eq_false_iff.mpr noLow) (Bool.eq_false_iff.mpr noHigh)
  · intro escape
    cases escape with
    | letter short => cases short
    | code digits noLow noHigh =>
      simp [readCodePoint, readHex4_eq_ok_iff.mpr digits, noLow, noHigh, bind, Except.bind]
    | pair first isHigh second isLow =>
      simp only [readCodePoint, readHex4_eq_ok_iff.mpr first, readHex4_eq_ok_iff.mpr second, isHigh,
        isLow, isLowSurrogate_of_isHighSurrogate isHigh, bind, Except.bind, Bool.false_eq_true,
        if_true, if_false]

theorem readEscape_eq_ok_iff {input rest : List Char} {char : Char} :
    readEscape input = .ok (char, rest) ↔ Escape input char rest := by
  fun_cases readEscape input with
  | case1 => exact ⟨nofun, nofun⟩
  | case2 rest => exact readCodePoint_eq_ok_iff
  | case3 letter rest noCode meaning short =>
    constructor
    · intro read
      cases read
      exact .letter short _
    · intro escape
      cases escape with
      | letter other =>
        rw [short, Option.some_inj] at other
        rw [other]
      | code => exact absurd rfl noCode
      | pair => exact absurd rfl noCode
  | case4 letter rest noCode none =>
    refine ⟨nofun, fun escape => ?_⟩
    cases escape with
    | letter other => rw [none] at other; cases other
    | code => exact absurd rfl noCode
    | pair => exact absurd rfl noCode

theorem Hex4.length_lt {input rest : List Char} {code : Nat} (digits : Hex4 input code rest) :
    rest.length < input.length := by
  cases digits
  simp only [List.length_cons]
  omega

theorem Escape.length_lt {input rest : List Char} {char : Char} (escape : Escape input char rest) :
    rest.length < input.length := by
  cases escape with
  | letter => exact Nat.lt_succ_self _
  | code digits => exact Nat.lt_succ_of_lt digits.length_lt
  | pair first _ second _ =>
    have front := first.length_lt
    have back := second.length_lt
    simp only [List.length_cons] at front ⊢
    omega

theorem Quoted.length_lt {input content rest : List Char} (quoted : Quoted input content rest) :
    rest.length < input.length := by
  induction quoted with
  | close => exact Nat.lt_succ_self _
  | plain _ _ _ _ ih => exact Nat.lt_succ_of_lt ih
  | escape escaped _ ih => exact Nat.lt_succ_of_lt (Nat.lt_trans ih escaped.length_lt)

theorem readText_plain {char : Char} (visible : 0x20 ≤ char.toNat) (noQuote : char ≠ '"')
    (noSlash : char ≠ '\\') (fuel : Nat) (input : List Char) :
    readText (fuel + 1) (char :: input) =
      (readText fuel input).map fun found => (char :: found.1, found.2) := by
  simp only [readText, if_neg (Nat.not_lt.mpr visible), bind, Except.bind]
  cases readText fuel input <;> rfl

theorem Quoted.readText_eq {input content rest : List Char} (quoted : Quoted input content rest)
    {fuel : Nat} (enough : input.length < fuel) : readText fuel input = .ok (content, rest) := by
  induction quoted generalizing fuel with
  | close =>
    obtain ⟨fuel, rfl⟩ := Nat.exists_eq_add_one.mpr (Nat.zero_lt_of_lt enough)
    rfl
  | plain visible noQuote noSlash _ ih =>
    obtain ⟨fuel, rfl⟩ := Nat.exists_eq_add_one.mpr (Nat.zero_lt_of_lt enough)
    rw [readText_plain visible noQuote noSlash, ih (Nat.lt_of_succ_lt_succ enough)]
    rfl
  | escape escaped _ ih =>
    obtain ⟨fuel, rfl⟩ := Nat.exists_eq_add_one.mpr (Nat.zero_lt_of_lt enough)
    have shorter := escaped.length_lt
    rw [readText_escape (readEscape_eq_ok_iff.mpr escaped), ih (by
      simp only [List.length_cons] at enough
      omega)]
    rfl

theorem quoted_of_readText {fuel : Nat} {input content rest : List Char}
    (read : readText fuel input = .ok (content, rest)) : Quoted input content rest := by
  fun_induction readText fuel input generalizing content rest with
  | case1 => cases read
  | case2 => cases read
  | case3 => cases read; exact .close _
  | case4 fuel input ih =>
    obtain ⟨⟨char, middle⟩, escaped, read⟩ := bind_eq_ok_iff.mp read
    obtain ⟨⟨others, last⟩, found, same⟩ := bind_eq_ok_iff.mp read
    cases same
    exact .escape (readEscape_eq_ok_iff.mp escaped) (ih _ found)
  | case5 => cases read
  | case6 fuel char input noQuote noSlash visible ih =>
    obtain ⟨⟨others, last⟩, found, same⟩ := bind_eq_ok_iff.mp read
    cases same
    exact .plain (Nat.le_of_not_lt visible) noQuote noSlash (ih found)

/-- A text in quotes is read exactly up to its closing quote. -/
theorem readQuoted_eq_ok_iff {input content rest : List Char} :
    readQuoted input = .ok (content, rest) ↔ Quoted input content rest :=
  ⟨quoted_of_readText, fun quoted => quoted.readText_eq (Nat.lt_succ_self _)⟩

theorem quoted_ofList {input content rest : List Char}
    (read : readQuoted input = .ok (content, rest)) :
    Quoted input (String.ofList content).toList rest := by
  rw [String.toList_ofList]
  exact readQuoted_eq_ok_iff.mp read

end Json

end Recast
