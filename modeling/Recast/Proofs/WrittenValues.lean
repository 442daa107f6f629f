import Recast.Json.Reader
import Recast.Proofs.ShownValues

set_option autoImplicit false

/-!
# Reading written JSON

A written value holds no control characters, and the reader gives it back whatever follows it, if it
holds no doubles and does not nest too deep.
-/

namespace Recast

namespace Assoc

variable {α : Type}

theorem insert_fresh {entries : Assoc α} {key : String} (fresh : key ∉ keys entries) (value : α) :
    insert entries key value = entries ++ [(key, value)] := by
  induction entries with
  | nil => rfl
  | cons entry rest ih =>
    obtain ⟨name, old⟩ := entry
    obtain ⟨other, others⟩ : key ≠ name ∧ key ∉ keys rest := by simpa [keys] using fresh
    simp [insert, other.symm, ih others]

/-- Pairs of distinct keys are entries as they are. -/
theorem ofPairs_eq_self {pairs : List (String × α)} (distinct : (keys pairs).Nodup) :
    ofPairs pairs = pairs := by
  have run : ∀ (rest done : List (String × α)), (keys (done ++ rest)).Nodup →
      insertAll done rest = done ++ rest := by
    intro rest
    induction rest with
    | nil => intro done _; simp [insertAll]
    | cons pair rest ih =>
      intro done distinct
      obtain ⟨key, value⟩ := pair
      have fresh : key ∉ keys done := by
        intro member
        simp only [keys, List.map_append, List.map_cons, List.nodup_append] at distinct
        exact distinct.2.2 key member key (by simp) rfl
      have step : insertAll done ((key, value) :: rest) =
          insertAll (insert done key value) rest := rfl
      have moved : done ++ [(key, value)] ++ rest = done ++ (key, value) :: rest := by simp
      rw [step, insert_fresh fresh, ih _ (moved ▸ distinct), moved]
  exact run pairs [] distinct

end Assoc

namespace Json

/-! ## Characters of written values -/

/-- A text without control characters. -/
def NoControl (text : List Char) : Prop :=
  ∀ char ∈ text, 0x20 ≤ char.toNat

-- Named, for among all characters an instance would be found that counts through them.
instance : DecidablePred NoControl := fun text =>
  List.decidableBAll (fun char : Char => 0x20 ≤ char.toNat) text

@[simp] theorem noControl_nil : NoControl [] := nofun

@[simp] theorem noControl_cons (char : Char) (rest : List Char) :
    NoControl (char :: rest) ↔ 0x20 ≤ char.toNat ∧ NoControl rest :=
  List.forall_mem_cons

@[simp] theorem noControl_append (left right : List Char) :
    NoControl (left ++ right) ↔ NoControl left ∧ NoControl right :=
  List.forall_mem_append

theorem noControl_of_digits {text : List Char} (digits : ∀ digit ∈ text, digit.isDigit = true) :
    NoControl text := by
  intro digit member
  have isDigit := digits digit member
  simp only [Char.isDigit, Bool.and_eq_true, decide_eq_true_eq] at isDigit
  have low : 48 ≤ digit.toNat := UInt32.le_iff_toNat_le.mp isDigit.1
  omega

theorem noControl_replicate (count : Nat) : NoControl (List.replicate count '0') :=
  noControl_of_digits fun _ member => List.eq_of_mem_replicate member ▸ rfl

theorem noControl_natText (number : Nat) : NoControl (Decimal.natText number) :=
  noControl_of_digits fun _ => Decimal.isDigit_of_mem_natText

theorem noControl_intText (number : Int) : NoControl (Decimal.intText number) := by
  cases number with
  | ofNat number => exact noControl_natText number
  | negSucc number => exact (noControl_cons '-' _).mpr ⟨by decide, noControl_natText _⟩

section Layout

variable {number : Decimal.Digits}

theorem noControl_positional (digits : NoControl number.digits) : NoControl number.positional := by
  have front : ∀ count, NoControl (number.digits.take count) :=
    fun count char member => digits char (List.mem_of_mem_take member)
  have back : ∀ count, NoControl (number.digits.drop count) :=
    fun count char member => digits char (List.mem_of_mem_drop member)
  unfold Decimal.Digits.positional
  split
  next => simp [digits, noControl_replicate]
  next =>
    dsimp only
    split
    next => simp [front, noControl_replicate]
    next => simp [front, back, noControl_replicate]

theorem noControl_scientific (digits : NoControl number.digits) (signed : Bool) :
    NoControl (number.scientific signed) := by
  have exponent := noControl_intText number.exponent
  have sign : NoControl (if signed = true ∧ 0 ≤ number.exponent then ['+'] else []) := by
    split <;> simp
  unfold Decimal.Digits.scientific
  split
  next => simp [exponent, sign]
  next digit single => simp_all
  next digit rest _ several => simp_all

end Layout

theorem noControl_double (number : Float) : NoControl (doubles.write number) := by
  have digits : ∀ magnitude : Decimal.Binary, NoControl magnitude.shortest.digits :=
    fun _ => noControl_of_digits fun _ => Decimal.isDigit_of_mem_shortest
  unfold Decimal.Layout.write
  split
  next => decide
  next negative _ => cases negative <;> decide
  next negative _ => cases negative <;> decide
  next negative magnitude _ =>
    have body : NoControl
        (if doubles.isPositional magnitude.shortest.exponent then magnitude.shortest.positional
        else magnitude.shortest.scientific doubles.signedExponent) := by
      split
      · exact noControl_positional (digits magnitude)
      · exact noControl_scientific (digits magnitude) _
    dsimp only
    split
    · exact (noControl_cons '-' _).mpr ⟨by decide, body⟩
    · exact body

private theorem visible_hexDigit : ∀ digit < 16, 0x20 ≤ (hexDigit digit).toNat := by
  decide

theorem noControl_escapeChar (char : Char) : NoControl (escapeChar char) := by
  unfold escapeChar
  repeat' split
  iterate 7
    next => decide
  next control =>
    have upper := visible_hexDigit (char.toNat / 16) (by omega)
    have lower := visible_hexDigit (char.toNat % 16) (by omega)
    simp [upper, lower]
  next plain => simpa using plain

theorem noControl_quoted (text : List Char) : NoControl (quoted text) := by
  have escaped : NoControl (text.flatMap escapeChar) := by
    intro char member
    obtain ⟨original, _, found⟩ := List.mem_flatMap.mp member
    exact noControl_escapeChar original char found
  simp [quoted, escaped]

mutual

/-- Whatever a value holds, it is written without control characters. -/
theorem noControl_write : ∀ value : Value, NoControl value.write
  | .null => by simp [Value.write]
  | .bool flag => by cases flag <;> simp [Value.write]
  | .int number => noControl_intText number
  | .float number => noControl_double number
  | .text content => noControl_quoted content.toList
  | .array items => by simp [Value.write, noControl_items items]
  | .object entries => by simp [Value.write, noControl_entries entries]

theorem noControl_items : ∀ items : List Value, NoControl (writeItems items)
  | [] => noControl_nil
  | item :: rest => by simp [writeItems, noControl_write item, noControl_moreItems rest]

theorem noControl_moreItems : ∀ items : List Value, NoControl (writeMoreItems items)
  | [] => noControl_nil
  | item :: rest => by simp [writeMoreItems, noControl_write item, noControl_moreItems rest]

theorem noControl_entries : ∀ entries : List (String × Value), NoControl (writeEntries entries)
  | [] => noControl_nil
  | (key, value) :: rest => by
    simp [writeEntries, noControl_quoted, noControl_write value, noControl_moreEntries rest]

theorem noControl_moreEntries : ∀ entries : List (String × Value),
    NoControl (writeMoreEntries entries)
  | [] => noControl_nil
  | (key, value) :: rest => by
    simp [writeMoreEntries, noControl_quoted, noControl_write value, noControl_moreEntries rest]

end

/-! ## Texts -/

theorem escapeChar_ne_nil (char : Char) : escapeChar char ≠ [] := by
  unfold escapeChar
  repeat' split
  all_goals simp

private theorem hexValue?_hexDigit : ∀ digit < 16, hexValue? (hexDigit digit) = some digit := by
  decide

theorem readCodePoint_control {code : Nat} (small : code < 0x20) (rest : List Char) :
    readCodePoint ('0' :: '0' :: hexDigit (code / 16) :: hexDigit (code % 16) :: rest) =
      .ok (Char.ofNat code, rest) := by
  have zero : hexValue? '0' = some 0 := rfl
  have upper := hexValue?_hexDigit (code / 16) (by omega)
  have lower := hexValue?_hexDigit (code % 16) (by omega)
  have whole : code / 16 * 16 + code % 16 = code := by omega
  have noLow : isLowSurrogate code = false := by
    simp only [isLowSurrogate, Bool.and_eq_false_iff, decide_eq_false_iff_not]
    omega
  have noHigh : isHighSurrogate code = false := by
    simp only [isHighSurrogate, Bool.and_eq_false_iff, decide_eq_false_iff_not]
    omega
  simp [readCodePoint, readHex4, zero, upper, lower, whole, noLow, noHigh, bind, Except.bind]

theorem readText_escape {char : Char} {input rest : List Char}
    (escape : readEscape input = .ok (char, rest)) (fuel : Nat) :
    readText (fuel + 1) ('\\' :: input) =
      (readText fuel rest).map fun found => (char :: found.1, found.2) := by
  simp only [readText, escape, bind, Except.bind]
  cases readText fuel rest <;> rfl

/-- A character is read back from the way in which it is written. -/
theorem readText_escapeChar (char : Char) (fuel : Nat) (rest : List Char) :
    readText (fuel + 1) (escapeChar char ++ rest) =
      (readText fuel rest).map fun found => (char :: found.1, found.2) := by
  unfold escapeChar
  split
  next quote =>
    subst quote
    exact readText_escape rfl fuel
  next noQuote =>
  split
  next slash =>
    subst slash
    exact readText_escape rfl fuel
  next noSlash =>
  split
  next newline => exact newline ▸ readText_escape rfl fuel
  split
  next carriage => exact carriage ▸ readText_escape rfl fuel
  split
  next tab => exact tab ▸ readText_escape rfl fuel
  split
  next backspace => exact backspace ▸ readText_escape rfl fuel
  split
  next feed => exact feed ▸ readText_escape rfl fuel
  split
  next control =>
    have code := readCodePoint_control control rest
    rw [Char.ofNat_toNat] at code
    have escape : readEscape ('u' :: '0' :: '0' :: hexDigit (char.toNat / 16) ::
        hexDigit (char.toNat % 16) :: rest) = .ok (char, rest) := code
    exact readText_escape escape fuel
  next plain =>
    simp only [List.singleton_append, readText, plain, if_false, bind, Except.bind]
    cases readText fuel rest <;> rfl

theorem readText_escaped (text : List Char) {fuel : Nat} (enough : text.length < fuel)
    (rest : List Char) :
    readText fuel (text.flatMap escapeChar ++ '"' :: rest) = .ok (text, rest) := by
  induction text generalizing fuel with
  | nil =>
    obtain ⟨fuel, rfl⟩ := Nat.exists_eq_add_one.mpr (Nat.zero_lt_of_lt enough)
    rfl
  | cons char text ih =>
    obtain ⟨fuel, rfl⟩ := Nat.exists_eq_add_one.mpr (Nat.zero_lt_of_lt enough)
    have others := ih (Nat.lt_of_succ_lt_succ enough)
    simp only [List.flatMap_cons, List.append_assoc, readText_escapeChar, others, Except.map]

theorem length_le_length_escaped (text : List Char) :
    text.length ≤ (text.flatMap escapeChar).length := by
  induction text with
  | nil => exact Nat.le_refl _
  | cons char rest ih =>
    have filled := List.length_pos_iff.mpr (escapeChar_ne_nil char)
    simp only [List.flatMap_cons, List.length_cons, List.length_append]
    omega

/-- A quoted text is read back, after its opening quote. -/
theorem readQuoted_escaped (text rest : List Char) :
    readQuoted (text.flatMap escapeChar ++ '"' :: rest) = .ok (text, rest) := by
  have bound := length_le_length_escaped text
  refine readText_escaped text ?_ rest
  simp only [List.length_append, List.length_cons]
  omega

/-! ## Integers -/

/-- A text that adds nothing to the number before it. -/
def StopsNumber (rest : List Char) : Prop :=
  ∀ char ∈ rest.head?, char.isDigit = false ∧ char ≠ '.' ∧ isExponentMark char = false

theorem natText_head {number : Nat} (positive : 0 < number) :
    (Decimal.natText number).head? ≠ some '0' := by
  induction number using Nat.strongRecOn with
  | ind number ih =>
    by_cases small : number < 10
    · have single : Decimal.natText number = [Nat.digitChar number] := Nat.toDigits_of_lt_base small
      have digits : ∀ digit < 10, 0 < digit → Nat.digitChar digit ≠ '0' := by decide
      simpa [single] using digits number small positive
    · have front : Decimal.natText number =
          Decimal.natText (number / 10) ++ [Nat.digitChar (number % 10)] :=
        Nat.toDigits_of_base_le (by decide) (Nat.le_of_not_lt small)
      obtain ⟨digit, rest, written, _⟩ := Decimal.natText_eq_cons (number / 10)
      have others := ih (number / 10) (by omega) (by omega)
      simpa [front, written] using others

private theorem le_foldl_digits (digits : List Char) (start : Nat) :
    start ≤ digits.foldl (fun total digit => total * 10 + digitValue digit) start := by
  induction digits generalizing start with
  | nil => exact Nat.le_refl _
  | cons digit rest ih => exact Nat.le_trans (by omega) (ih (start * 10 + digitValue digit))

/-- Digits are all taken in if their number fits 64 bits. -/
theorem absorb_of_le {digits : List Char} {start : Nat}
    (fits : digits.foldl (fun total digit => total * 10 + digitValue digit) start ≤ maxUnsigned) :
    absorb start digits =
      (digits.foldl (fun total digit => total * 10 + digitValue digit) start, 0) := by
  induction digits generalizing start with
  | nil => rfl
  | cons digit rest ih =>
    have next : start * 10 + digitValue digit ≤ maxUnsigned :=
      Nat.le_trans (le_foldl_digits rest _) fits
    simp only [absorb, next, if_true, List.foldl_cons, ih fits]

theorem absorb_natText {number : Nat} (fits : number ≤ maxUnsigned) :
    absorb 0 (Decimal.natText number) = (number, 0) := by
  have value : (Decimal.natText number).foldl (fun total digit => total * 10 + digitValue digit) 0 =
      number := Decimal.digitsValue_natText number
  rw [absorb_of_le (by omega), value]

/-- The digits of a natural number are read back up to a text that adds nothing. -/
theorem readNumber_natText (negative : Bool) {number : Nat} (fits : number ≤ maxUnsigned)
    {rest : List Char} (stops : StopsNumber rest) :
    readNumber negative (Decimal.natText number ++ rest) =
      (wholeNumber negative number 0).map fun found => (found, rest) := by
  have allDigits : ∀ digit ∈ Decimal.natText number, digit.isDigit = true :=
    fun _ => Decimal.isDigit_of_mem_natText
  have noDigit : rest.takeWhile Char.isDigit = [] ∧ rest.dropWhile Char.isDigit = rest := by
    cases rest with
    | nil => exact ⟨rfl, rfl⟩
    | cons char rest => simp [(stops char rfl).1]
  have taken : (Decimal.natText number ++ rest).takeWhile Char.isDigit =
      Decimal.natText number := by
    rw [List.takeWhile_append_of_pos allDigits, noDigit.1, List.append_nil]
  have left : (Decimal.natText number ++ rest).dropWhile Char.isDigit = rest := by
    rw [List.dropWhile_append_of_pos allDigits, noDigit.2]
  have absorbed := absorb_natText fits
  unfold readNumber
  simp only [taken, left]
  split
  next empty => exact absurd empty (Decimal.natText_ne_nil number)
  next second others padded =>
    -- A leading zero is a number of its own.
    cases number with
    | zero => cases padded
    | succ number => exact absurd (by rw [padded]; rfl) (natText_head (Nat.succ_pos number))
  next =>
    simp only [absorbed]
    cases rest with
    | nil => rfl
    | cons char rest =>
      obtain ⟨_, noPoint, noMark⟩ := stops char rfl
      split
      next same => exact absurd (List.cons.inj same).1 noPoint
      next mark after _ same =>
        obtain ⟨rfl, rfl⟩ := List.cons.inj same
        simp [noMark]
      next same => cases same

theorem StopsNumber.cons {char : Char} (noDigit : char.isDigit = false) (noPoint : char ≠ '.')
    (noMark : isExponentMark char = false) (rest : List Char) : StopsNumber (char :: rest) := by
  intro first same
  cases same
  exact ⟨noDigit, noPoint, noMark⟩

/-- An integer of 64 bits, signed or unsigned. -/
def Fits64 (number : Int) : Prop :=
  -(maxSigned + 1) ≤ number ∧ number ≤ maxUnsigned

/-! ## Values -/

mutual

/-- A value without doubles whose integers have 64 bits and whose objects have distinct keys. -/
def Value.IsExact : Value → Prop
  | .int number => Fits64 number
  | .float _ => False
  | .array items => ItemsExact items
  | .object entries => (Assoc.keys entries).Nodup ∧ EntriesExact entries
  | _ => True

def ItemsExact : List Value → Prop
  | [] => True
  | item :: rest => item.IsExact ∧ ItemsExact rest

def EntriesExact : List (String × Value) → Prop
  | [] => True
  | (_, value) :: rest => value.IsExact ∧ EntriesExact rest

end

mutual

/-- How many containers stand inside each other. -/
def Value.nesting : Value → Nat
  | .array items => itemsNesting items + 1
  | .object entries => entriesNesting entries + 1
  | _ => 0

def itemsNesting : List Value → Nat
  | [] => 0
  | item :: rest => max item.nesting (itemsNesting rest)

def entriesNesting : List (String × Value) → Nat
  | [] => 0
  | (_, value) :: rest => max value.nesting (entriesNesting rest)

end

theorem ne_of_isDigit {char other : Char} (digit : char.isDigit = true)
    (noDigit : other.isDigit = false) : char ≠ other := by
  rintro rfl
  simp [digit] at noDigit

theorem isJsonBlank_of_isDigit {char : Char} (digit : char.isDigit = true) :
    isJsonBlank char = false := by
  have other : ∀ blank : Char, blank.isDigit = false → (char == blank) = false :=
    fun _ noDigit => beq_false_of_ne (ne_of_isDigit digit noDigit)
  simp only [isJsonBlank, other ' ' rfl, other '\n' rfl, other '\t' rfl, other '\r' rfl,
    Bool.or_self]

/-- A written value begins with a character that is neither a blank nor a closing bracket. -/
theorem write_eq_cons (value : Value) (exact : value.IsExact) :
    ∃ char rest, value.write = char :: rest ∧ isJsonBlank char = false ∧ char ≠ ']' := by
  cases value with
  | null => exact ⟨_, _, rfl, rfl, by decide⟩
  | bool flag => cases flag <;> exact ⟨_, _, rfl, rfl, by decide⟩
  | int number =>
    cases number with
    | ofNat number =>
      obtain ⟨digit, rest, written, isDigit⟩ := Decimal.natText_eq_cons number
      exact ⟨digit, rest, written, isJsonBlank_of_isDigit isDigit, ne_of_isDigit isDigit rfl⟩
    | negSucc number => exact ⟨_, _, rfl, rfl, by decide⟩
  | float number => cases exact
  | text content => exact ⟨_, _, rfl, rfl, by decide⟩
  | array items => exact ⟨_, _, rfl, rfl, by decide⟩
  | object entries => exact ⟨_, _, rfl, rfl, by decide⟩

theorem skipBlanks_cons {char : Char} (filled : isJsonBlank char = false)
    (rest : List Char) : skipBlanks (char :: rest) = char :: rest := by
  simp [skipBlanks, filled]

theorem readValue_digit {char : Char} (digit : char.isDigit = true) (fuel room : Nat)
    (rest : List Char) :
    readValue (fuel + 1) room (char :: rest) =
      (readNumber false (char :: rest)).map fun found => (found.1.toValue, found.2) := by
  have other : ∀ sign : Char, sign.isDigit = false → char ≠ sign :=
    fun _ noDigit => ne_of_isDigit digit noDigit
  simp [readValue, skipBlanks_cons (isJsonBlank_of_isDigit digit), digit, other 'n' rfl,
    other 't' rfl, other 'f' rfl, other '"' rfl, other '-' rfl, other '[' rfl, other '{' rfl]

theorem readValue_int {number : Int} (exact : Fits64 number) {rest : List Char}
    (stops : StopsNumber rest) (fuel room : Nat) :
    readValue (fuel + 1) room (Decimal.intText number ++ rest) = .ok (.int number, rest) := by
  obtain ⟨low, high⟩ := exact
  cases number with
  | ofNat number =>
    have fits : number ≤ maxUnsigned := Int.ofNat_le.mp high
    have back := readNumber_natText false fits stops
    obtain ⟨digit, others, written, isDigit⟩ := Decimal.natText_eq_cons number
    simp only [Decimal.intText, written, List.cons_append] at back ⊢
    simp [readValue_digit isDigit, back, wholeNumber, Except.map, Number.toValue]
  | negSucc number =>
    have small : ¬ maxSigned + 1 < number + 1 := by omega
    have fits : number + 1 ≤ maxUnsigned := by simp only [maxSigned, maxUnsigned] at small ⊢; omega
    have back := readNumber_natText true fits stops
    simp [Decimal.intText, readValue, skipBlanks_cons, isJsonBlank, back, wholeNumber, small,
      Except.map, Number.toValue, Int.negSucc_eq]

/-! ## Reading back -/

section Parts

variable {fuel room : Nat} {tail rest : List Char}

theorem stopsNumber_moreItems (items : List Value) (rest : List Char) :
    StopsNumber (writeMoreItems items ++ ']' :: rest) := by
  cases items <;> exact .cons rfl (by decide) rfl _

theorem stopsNumber_moreEntries (entries : List (String × Value)) (rest : List Char) :
    StopsNumber (writeMoreEntries entries ++ '}' :: rest) := by
  cases entries <;> exact .cons rfl (by decide) rfl _

theorem readItems_filled {item : Value} {items : List Value} (exact : item.IsExact)
    (first : readValue fuel room (item.write ++ tail) = .ok (item, tail))
    (others : readMoreItems fuel room tail = .ok (items, rest)) :
    readItems (fuel + 1) room (item.write ++ tail) = .ok (item :: items, rest) := by
  obtain ⟨char, after, written, filled, notClosing⟩ := write_eq_cons item exact
  have start : skipBlanks (item.write ++ tail) = char :: (after ++ tail) := by
    rw [written]
    exact skipBlanks_cons filled _
  simp [readItems, start, notClosing, first, others, bind, Except.bind]

theorem readMoreItems_filled {item : Value} {items : List Value}
    (first : readValue fuel room (item.write ++ tail) = .ok (item, tail))
    (others : readMoreItems fuel room tail = .ok (items, rest)) :
    readMoreItems (fuel + 1) room (',' :: (item.write ++ tail)) = .ok (item :: items, rest) := by
  simp [readMoreItems, skipBlanks_cons, isJsonBlank, first, others, bind, Except.bind]

/-- An entry, after the quote that opens its key. -/
theorem readEntry_filled (key : String) {value : Value} {entries : List (String × Value)}
    (first : readValue fuel room (value.write ++ tail) = .ok (value, tail))
    (others : readMoreEntries fuel room tail = .ok (entries, rest)) :
    readEntry (fuel + 1) room
        (key.toList.flatMap escapeChar ++ '"' :: ':' :: (value.write ++ tail)) =
      .ok ((key, value) :: entries, rest) := by
  have colon : readColon (':' :: (value.write ++ tail)) = .ok (value.write ++ tail) := rfl
  simp [readEntry, readQuoted_escaped, colon, first, others, bind, Except.bind]

end Parts

mutual

/-- A written value is read back, whatever follows it. -/
theorem readValue_write : ∀ (value : Value) {fuel room : Nat} {rest : List Char},
    value.IsExact → value.nesting ≤ room → StopsNumber rest →
      3 * (value.write ++ rest).length + 1 ≤ fuel →
        readValue fuel room (value.write ++ rest) = .ok (value, rest)
  | .null, fuel, room, rest, _, _, _, enough => by
    obtain ⟨fuel, rfl⟩ := Nat.exists_eq_add_one.mpr (Nat.zero_lt_of_lt enough)
    simp [Value.write, readValue, skipBlanks_cons, isJsonBlank, readWord, Except.map]
  | .bool flag, fuel, room, rest, _, _, _, enough => by
    obtain ⟨fuel, rfl⟩ := Nat.exists_eq_add_one.mpr (Nat.zero_lt_of_lt enough)
    cases flag <;>
      simp [Value.write, readValue, skipBlanks_cons, isJsonBlank, readWord, Except.map]
  | .int number, fuel, room, rest, exact, _, stops, enough => by
    obtain ⟨fuel, rfl⟩ := Nat.exists_eq_add_one.mpr (Nat.zero_lt_of_lt enough)
    exact readValue_int exact stops fuel room
  | .text content, fuel, room, rest, _, _, _, enough => by
    obtain ⟨fuel, rfl⟩ := Nat.exists_eq_add_one.mpr (Nat.zero_lt_of_lt enough)
    have back := readQuoted_escaped content.toList rest
    simp [Value.write, quoted, readValue, skipBlanks_cons, isJsonBlank, back, Except.map]
  | .array items, fuel, room, rest, exact, shallow, _, enough => by
    obtain ⟨fuel, rfl⟩ := Nat.exists_eq_add_one.mpr (Nat.zero_lt_of_lt enough)
    obtain ⟨room, rfl⟩ := Nat.exists_eq_add_one.mpr (Nat.zero_lt_of_lt shallow)
    have back : readItems fuel room (writeItems items ++ ']' :: rest) = .ok (items, rest) :=
      readItems_write items exact (Nat.le_of_succ_le_succ shallow) (by
        simp [Value.write] at enough ⊢
        omega)
    simp [Value.write, readValue, skipBlanks_cons, isJsonBlank, back, Except.map]
  | .object entries, fuel, room, rest, exact, shallow, _, enough => by
    obtain ⟨fuel, rfl⟩ := Nat.exists_eq_add_one.mpr (Nat.zero_lt_of_lt enough)
    obtain ⟨room, rfl⟩ := Nat.exists_eq_add_one.mpr (Nat.zero_lt_of_lt shallow)
    have back : readEntries fuel room (writeEntries entries ++ '}' :: rest) = .ok (entries, rest) :=
      readEntries_write entries exact.2 (Nat.le_of_succ_le_succ shallow) (by
        simp [Value.write] at enough ⊢
        omega)
    simp [Value.write, readValue, skipBlanks_cons, isJsonBlank, back, Except.map,
      Assoc.ofPairs_eq_self exact.1]

theorem readItems_write : ∀ (items : List Value) {fuel room : Nat} {rest : List Char},
    ItemsExact items → itemsNesting items ≤ room →
      3 * (writeItems items ++ ']' :: rest).length + 2 ≤ fuel →
        readItems fuel room (writeItems items ++ ']' :: rest) = .ok (items, rest)
  | [], fuel, room, rest, _, _, enough => by
    obtain ⟨fuel, rfl⟩ := Nat.exists_eq_add_one.mpr (Nat.zero_lt_of_lt enough)
    simp [writeItems, readItems, skipBlanks_cons, isJsonBlank]
  | item :: items, fuel, room, rest, exact, shallow, enough => by
    obtain ⟨fuel, rfl⟩ := Nat.exists_eq_add_one.mpr (Nat.zero_lt_of_lt enough)
    obtain ⟨here, within⟩ := Nat.max_le.mp shallow
    simp only [writeItems, List.append_assoc, List.length_append, List.length_cons] at enough ⊢
    have first : readValue fuel room (item.write ++ (writeMoreItems items ++ ']' :: rest)) =
        .ok (item, writeMoreItems items ++ ']' :: rest) :=
      readValue_write item exact.1 here (stopsNumber_moreItems items rest)
        (by simp only [List.length_append, List.length_cons]; omega)
    have others : readMoreItems fuel room (writeMoreItems items ++ ']' :: rest) =
        .ok (items, rest) :=
      readMoreItems_write items exact.2 within
        (by simp only [List.length_append, List.length_cons]; omega)
    exact readItems_filled exact.1 first others

theorem readMoreItems_write : ∀ (items : List Value) {fuel room : Nat} {rest : List Char},
    ItemsExact items → itemsNesting items ≤ room →
      3 * (writeMoreItems items ++ ']' :: rest).length + 1 ≤ fuel →
        readMoreItems fuel room (writeMoreItems items ++ ']' :: rest) = .ok (items, rest)
  | [], fuel, room, rest, _, _, enough => by
    obtain ⟨fuel, rfl⟩ := Nat.exists_eq_add_one.mpr (Nat.zero_lt_of_lt enough)
    simp [writeMoreItems, readMoreItems, skipBlanks_cons, isJsonBlank]
  | item :: items, fuel, room, rest, exact, shallow, enough => by
    obtain ⟨fuel, rfl⟩ := Nat.exists_eq_add_one.mpr (Nat.zero_lt_of_lt enough)
    obtain ⟨here, within⟩ := Nat.max_le.mp shallow
    simp only [writeMoreItems, List.cons_append, List.append_assoc, List.length_cons,
      List.length_append] at enough ⊢
    have first : readValue fuel room (item.write ++ (writeMoreItems items ++ ']' :: rest)) =
        .ok (item, writeMoreItems items ++ ']' :: rest) :=
      readValue_write item exact.1 here (stopsNumber_moreItems items rest)
        (by simp only [List.length_append, List.length_cons]; omega)
    have others : readMoreItems fuel room (writeMoreItems items ++ ']' :: rest) =
        .ok (items, rest) :=
      readMoreItems_write items exact.2 within
        (by simp only [List.length_append, List.length_cons]; omega)
    exact readMoreItems_filled first others

theorem readEntries_write : ∀ (entries : List (String × Value)) {fuel room : Nat}
    {rest : List Char}, EntriesExact entries → entriesNesting entries ≤ room →
      3 * (writeEntries entries ++ '}' :: rest).length + 1 ≤ fuel →
        readEntries fuel room (writeEntries entries ++ '}' :: rest) = .ok (entries, rest)
  | [], fuel, room, rest, _, _, enough => by
    obtain ⟨fuel, rfl⟩ := Nat.exists_eq_add_one.mpr (Nat.zero_lt_of_lt enough)
    simp [writeEntries, readEntries, skipBlanks_cons, isJsonBlank]
  | (key, value) :: entries, fuel, room, rest, exact, shallow, enough => by
    obtain ⟨fuel, rfl⟩ := Nat.exists_eq_add_one.mpr (Nat.zero_lt_of_lt enough)
    obtain ⟨here, within⟩ := Nat.max_le.mp shallow
    simp only [writeEntries, quoted, List.cons_append, List.append_assoc, List.length_cons,
      List.length_append, List.nil_append] at enough ⊢
    obtain ⟨fuel, rfl⟩ : ∃ left, fuel = left + 1 := Nat.exists_eq_add_one.mpr (by omega)
    have first : readValue fuel room (value.write ++ (writeMoreEntries entries ++ '}' :: rest)) =
        .ok (value, writeMoreEntries entries ++ '}' :: rest) :=
      readValue_write value exact.1 here (stopsNumber_moreEntries entries rest)
        (by simp only [List.length_append, List.length_cons]; omega)
    have others : readMoreEntries fuel room (writeMoreEntries entries ++ '}' :: rest) =
        .ok (entries, rest) :=
      readMoreEntries_write entries exact.2 within
        (by simp only [List.length_append, List.length_cons]; omega)
    have entry := readEntry_filled key first others
    simp [readEntries, skipBlanks_cons, isJsonBlank, entry]

theorem readMoreEntries_write : ∀ (entries : List (String × Value)) {fuel room : Nat}
    {rest : List Char}, EntriesExact entries → entriesNesting entries ≤ room →
      3 * (writeMoreEntries entries ++ '}' :: rest).length + 1 ≤ fuel →
        readMoreEntries fuel room (writeMoreEntries entries ++ '}' :: rest) = .ok (entries, rest)
  | [], fuel, room, rest, _, _, enough => by
    obtain ⟨fuel, rfl⟩ := Nat.exists_eq_add_one.mpr (Nat.zero_lt_of_lt enough)
    simp [writeMoreEntries, readMoreEntries, skipBlanks_cons, isJsonBlank]
  | (key, value) :: entries, fuel, room, rest, exact, shallow, enough => by
    obtain ⟨fuel, rfl⟩ := Nat.exists_eq_add_one.mpr (Nat.zero_lt_of_lt enough)
    obtain ⟨here, within⟩ := Nat.max_le.mp shallow
    simp only [writeMoreEntries, quoted, List.cons_append, List.append_assoc, List.length_cons,
      List.length_append, List.nil_append] at enough ⊢
    obtain ⟨fuel, rfl⟩ : ∃ left, fuel = left + 1 := Nat.exists_eq_add_one.mpr (by omega)
    have first : readValue fuel room (value.write ++ (writeMoreEntries entries ++ '}' :: rest)) =
        .ok (value, writeMoreEntries entries ++ '}' :: rest) :=
      readValue_write value exact.1 here (stopsNumber_moreEntries entries rest)
        (by simp only [List.length_append, List.length_cons]; omega)
    have others : readMoreEntries fuel room (writeMoreEntries entries ++ '}' :: rest) =
        .ok (entries, rest) :=
      readMoreEntries_write entries exact.2 within
        (by simp only [List.length_append, List.length_cons]; omega)
    have entry := readEntry_filled key first others
    simp [readMoreEntries, skipBlanks_cons, isJsonBlank, entry]

end

/-- A written value is read as a whole. -/
theorem read_write {value : Value} (exact : value.IsExact) (shallow : value.nesting ≤ maxDepth) :
    read value.write = .ok value := by
  have back : readValue (fuelFor value.write) maxDepth (value.write ++ []) = .ok (value, []) := by
    refine readValue_write value exact shallow (by nofun) ?_
    simp only [fuelFor, List.append_nil]
    omega
  rw [List.append_nil] at back
  simp [read, back, readEnd, skipBlanks, bind, Except.bind]

end Json

end Recast
