import Recast.Proofs.NumberGrammar

set_option autoImplicit false

/-!
# The grammar of JSON values

A value is a scalar, or an array or object of values with less room for nesting. What texts, keys
and numbers look like and what a value means are parameters of the grammar. The reader of values
reads exactly the grammar in which everything has a meaning.
-/

namespace Recast.Json

/-! ## Judgements -/

section Judgements

variable {κ α : Type}

/-- What follows some elements: others, each behind a comma, and the closing bracket. -/
inductive Tail (Element : List Char → α → List Char → Prop) (close : Char) :
    List Char → List α → List Char → Prop where
  | close {input rest : List Char} (bracket : Blanks input (close :: rest)) :
      Tail Element close input [] rest
  | more {input after middle rest : List Char} {item : α} {items : List α}
      (comma : Blanks input (',' :: after)) (element : Element after item middle)
      (others : Tail Element close middle items rest) :
      Tail Element close input (item :: items) rest

/-- Elements with commas between them, and the closing bracket. -/
inductive Series (Element : List Char → α → List Char → Prop) (close : Char) :
    List Char → List α → List Char → Prop where
  | empty {input rest : List Char} (bracket : Blanks input (close :: rest)) :
      Series Element close input [] rest
  | filled {input middle rest : List Char} {item : α} {items : List α}
      (element : Element input item middle) (others : Tail Element close middle items rest) :
      Series Element close input (item :: items) rest

/-- A quoted key, a colon and a value. -/
inductive Entry (Key : List Char → κ → List Char → Prop)
    (Element : List Char → α → List Char → Prop) : List Char → κ × α → List Char → Prop where
  | pair {input quoted after behind rest : List Char} {name : κ} {value : α}
      (quote : Blanks input ('"' :: quoted)) (key : Key quoted name after)
      (colon : Blanks after (':' :: behind)) (element : Element behind value rest) :
      Entry Key Element input (name, value) rest

/-- What texts and keys look like after their opening quote and numbers after their sign, and what
the values mean. -/
structure Forms (κ α : Type) where
  null : α
  bool : Bool → α
  Text : List Char → α → List Char → Prop
  Number : Bool → List Char → α → List Char → Prop
  Key : List Char → κ → List Char → Prop
  array : List α → α
  object : List (κ × α) → α

inductive Scalar (forms : Forms κ α) : List Char → α → List Char → Prop where
  | null (rest : List Char) : Scalar forms (['n', 'u', 'l', 'l'] ++ rest) forms.null rest
  | isTrue (rest : List Char) : Scalar forms (['t', 'r', 'u', 'e'] ++ rest) (forms.bool true) rest
  | isFalse (rest : List Char) :
      Scalar forms (['f', 'a', 'l', 's', 'e'] ++ rest) (forms.bool false) rest
  | text {input rest : List Char} {value : α} (found : forms.Text input value rest) :
      Scalar forms ('"' :: input) value rest
  | negative {input rest : List Char} {value : α} (found : forms.Number true input value rest) :
      Scalar forms ('-' :: input) value rest
  | number {input rest : List Char} {value : α} (found : forms.Number false input value rest) :
      Scalar forms input value rest

inductive Container (forms : Forms κ α) (Inner : List Char → α → List Char → Prop) :
    List Char → α → List Char → Prop where
  | array {input rest : List Char} {items : List α} (found : Series Inner ']' input items rest) :
      Container forms Inner ('[' :: input) (forms.array items) rest
  | object {input rest : List Char} {entries : List (κ × α)}
      (found : Series (Entry forms.Key Inner) '}' input entries rest) :
      Container forms Inner ('{' :: input) (forms.object entries) rest

/-- A value after blanks, with room for so many containers inside one another. -/
def IsValue (forms : Forms κ α) : Nat → List Char → α → List Char → Prop
  | 0, input, value, rest => ∃ front, Blanks input front ∧ Scalar forms front value rest
  | room + 1, input, value, rest => ∃ front, Blanks input front ∧
      (Scalar forms front value rest ∨ Container forms (IsValue forms room) front value rest)

end Judgements

/-- The forms of a value that is read: numbers must fit a double, and the last of several entries
with one key counts. -/
def exact : Forms String Value where
  null := .null
  bool := .bool
  Text input value rest := ∃ text : String, Quoted input text.toList rest ∧ value = .text text
  Number negative input value rest := ∃ numeral number, Unsigned input numeral rest ∧
    numeral.value? negative = some number ∧ value = number.toValue
  Key input key rest := Quoted input key.toList rest
  array := .array
  object entries := .object (Assoc.ofPairs entries)

/-! ## Sequences -/

section Sequences

variable {κ α : Type} {Element Other : List Char → α → List Char → Prop} {close : Char}
  {input rest : List Char}

theorem Tail.imp {items : List α} (weaker : ∀ {input value rest}, Element input value rest →
    Other input value rest) (tail : Tail Element close input items rest) :
    Tail Other close input items rest := by
  induction tail with
  | close bracket => exact .close bracket
  | more comma element _ ih => exact .more comma (weaker element) ih

theorem Series.imp {items : List α} (weaker : ∀ {input value rest}, Element input value rest →
    Other input value rest) (series : Series Element close input items rest) :
    Series Other close input items rest := by
  cases series with
  | empty bracket => exact .empty bracket
  | filled element others => exact .filled (weaker element) (others.imp weaker)

theorem Entry.imp {Key : List Char → κ → List Char → Prop} {entry : κ × α}
    (weaker : ∀ {input value rest}, Element input value rest → Other input value rest)
    (found : Entry Key Element input entry rest) : Entry Key Other input entry rest := by
  obtain ⟨quote, key, colon, element⟩ := found
  exact .pair quote key colon (weaker element)

theorem stopsNumber_of_isJsonBlank {char : Char} (blank : isJsonBlank char = true)
    (rest : List Char) : StopsNumber (char :: rest) := by
  simp only [isJsonBlank, Bool.or_eq_true, beq_iff_eq] at blank
  obtain ((rfl | rfl) | rfl) | rfl := blank <;> exact .cons rfl (by decide) rfl rest

theorem stopsNumber_of_blanks {char : Char} (blanks : Blanks input (char :: rest))
    (noDigit : char.isDigit = false) (noPoint : char ≠ '.') (noMark : isExponentMark char = false) :
    StopsNumber input := by
  cases blanks with
  | none => exact .cons noDigit noPoint noMark rest
  | more blank => exact stopsNumber_of_isJsonBlank blank _

/-- A comma or a bracket ends the number before it. -/
theorem Tail.stopsNumber {items : List α} (tail : Tail Element close input items rest)
    (bracket : close = ']' ∨ close = '}') : StopsNumber input := by
  cases tail with
  | close found =>
    obtain rfl | rfl := bracket <;> exact stopsNumber_of_blanks found rfl (by decide) rfl
  | more comma => exact stopsNumber_of_blanks comma rfl (by decide) rfl

theorem Tail.length_lt {items : List α} (shorter : ∀ {input value rest},
    Element input value rest → rest.length < input.length)
    (tail : Tail Element close input items rest) : rest.length < input.length := by
  induction tail with
  | close bracket => exact bracket.length_le
  | more comma element _ ih =>
    have comma := comma.length_le
    have element := shorter element
    simp only [List.length_cons] at comma
    omega

theorem Series.length_lt {items : List α} (shorter : ∀ {input value rest},
    Element input value rest → rest.length < input.length)
    (series : Series Element close input items rest) : rest.length < input.length := by
  cases series with
  | empty bracket => exact bracket.length_le
  | filled element others => exact Nat.lt_trans (others.length_lt shorter) (shorter element)

end Sequences

/-! ## Values -/

section Values

variable {κ α : Type} {forms : Forms κ α} {input rest : List Char} {value : α}

/-- Texts, keys and numbers take up something, and a number begins with a digit. -/
structure Forms.IsProper (forms : Forms κ α) : Prop where
  text : ∀ {input value rest}, forms.Text input value rest → rest.length < input.length
  key : ∀ {input name rest}, forms.Key input name rest → rest.length < input.length
  number : ∀ {negative input value rest}, forms.Number negative input value rest →
    rest.length < input.length ∧ ∃ digit others, input = digit :: others ∧ digit.isDigit = true

theorem isValue_iff {room : Nat} :
    IsValue forms room input value rest ↔ ∃ front, Blanks input front ∧
      (Scalar forms front value rest ∨
        ∃ lower, room = lower + 1 ∧ Container forms (IsValue forms lower) front value rest) := by
  cases room <;> simp [IsValue]

theorem IsValue.after {room : Nat} {behind : List Char}
    (found : IsValue forms room behind value rest) (blanks : Blanks input behind) :
    IsValue forms room input value rest := by
  obtain ⟨front, others, found⟩ := isValue_iff.mp found
  exact isValue_iff.mpr ⟨front, blanks.trans others, found⟩

theorem Entry.after {Key : List Char → κ → List Char → Prop}
    {Element : List Char → α → List Char → Prop} {entry : κ × α} {behind : List Char}
    (found : Entry Key Element behind entry rest) (blanks : Blanks input behind) :
    Entry Key Element input entry rest := by
  obtain ⟨quote, key, colon, element⟩ := found
  exact .pair (blanks.trans quote) key colon element

/-- A value needs no more room than there is. -/
theorem IsValue.succ {room : Nat} (found : IsValue forms room input value rest) :
    IsValue forms (room + 1) input value rest := by
  induction room using Nat.strongRecOn generalizing input value rest with
  | ind room ih =>
    obtain ⟨front, blanks, scalar | ⟨lower, rfl, container⟩⟩ := isValue_iff.mp found
    · exact ⟨front, blanks, .inl scalar⟩
    · have deeper := @ih lower (Nat.lt_succ_self lower)
      refine ⟨front, blanks, .inr ?_⟩
      cases container with
      | array found => exact .array (found.imp deeper)
      | object found => exact .object (found.imp (Entry.imp deeper))

theorem Scalar.front (proper : forms.IsProper) (found : Scalar forms input value rest) :
    rest.length < input.length ∧
      ∃ char others, input = char :: others ∧ isJsonBlank char = false ∧ char ≠ ']' := by
  cases found with
  | text found => exact ⟨Nat.lt_succ_of_lt (proper.text found), _, _, rfl, rfl, by decide⟩
  | negative found => exact ⟨Nat.lt_succ_of_lt (proper.number found).1, _, _, rfl, rfl, by decide⟩
  | number found =>
    obtain ⟨shorter, digit, others, rfl, isDigit⟩ := proper.number found
    exact ⟨shorter, digit, others, rfl, isJsonBlank_of_isDigit isDigit, ne_of_isDigit isDigit rfl⟩
  | null | isTrue | isFalse =>
    refine ⟨?_, _, _, rfl, rfl, by decide⟩
    simp only [List.length_append, List.length_cons]
    omega

theorem Entry.length_lt {Key : List Char → κ → List Char → Prop}
    {Element : List Char → α → List Char → Prop} {entry : κ × α}
    (keys : ∀ {input name rest}, Key input name rest → rest.length < input.length)
    (shorter : ∀ {input value rest}, Element input value rest → rest.length < input.length)
    (found : Entry Key Element input entry rest) : rest.length < input.length := by
  obtain ⟨quote, key, colon, element⟩ := found
  have quote := quote.length_le
  have key := keys key
  have colon := colon.length_le
  have element := shorter element
  simp only [List.length_cons] at quote colon
  omega

theorem Container.front (proper : forms.IsProper) {Inner : List Char → α → List Char → Prop}
    (shorter : ∀ {input value rest}, Inner input value rest → rest.length < input.length)
    (found : Container forms Inner input value rest) :
    rest.length < input.length ∧
      ∃ char others, input = char :: others ∧ isJsonBlank char = false ∧ char ≠ ']' := by
  cases found with
  | array found =>
    exact ⟨Nat.lt_succ_of_lt (found.length_lt shorter), _, _, rfl, rfl, by decide⟩
  | object found =>
    exact ⟨Nat.lt_succ_of_lt (found.length_lt (Entry.length_lt proper.key shorter)), _, _, rfl, rfl,
      by decide⟩

/-- A value takes up something, and does not begin like the end of an array. -/
theorem IsValue.front (proper : forms.IsProper) {room : Nat}
    (found : IsValue forms room input value rest) :
    rest.length < input.length ∧ ∃ char others, skipBlanks input = char :: others ∧ char ≠ ']' := by
  induction room using Nat.strongRecOn generalizing input value rest with
  | ind room ih =>
    have begins : ∃ front, Blanks input front ∧ rest.length < front.length ∧
        ∃ char others, front = char :: others ∧ isJsonBlank char = false ∧ char ≠ ']' := by
      obtain ⟨front, blanks, scalar | ⟨lower, rfl, container⟩⟩ := isValue_iff.mp found
      · exact ⟨front, blanks, scalar.front proper⟩
      · exact ⟨front, blanks,
          container.front proper fun inner => (ih lower (Nat.lt_succ_self lower) inner).1⟩
    obtain ⟨front, blanks, shorter, char, others, rfl, filled, noBracket⟩ := begins
    exact ⟨Nat.lt_of_lt_of_le shorter blanks.length_le, char, others,
      skipBlanks_eq_cons_iff.mpr ⟨blanks, filled⟩, noBracket⟩

end Values

theorem Unsigned.shorter {input rest : List Char} {numeral : Numeral}
    (found : Unsigned input numeral rest) :
    rest.length < input.length ∧
      ∃ digit others, input = digit :: others ∧ digit.isDigit = true := by
  obtain ⟨front, _, after, scale⟩ := found
  refine ⟨?_, front.head⟩
  have behind := after.length_le
  have last := scale.length_le
  have digits := front.length_lt
  omega

theorem exact_isProper : exact.IsProper where
  text := fun ⟨_, found, _⟩ => found.length_lt
  key := Quoted.length_lt
  number := fun ⟨_, _, found, _, _⟩ => found.shorter

/-! ## What is read is a value -/

theorem blanks_of_skipBlanks {input rest : List Char} {char : Char}
    (left : skipBlanks input = char :: rest) : Blanks input (char :: rest) :=
  (skipBlanks_eq_cons_iff.mp left).1

mutual

theorem isValue_of_readValue : ∀ (fuel : Nat) {room : Nat} {input rest : List Char} {value : Value},
    readValue fuel room input = .ok (value, rest) → IsValue exact room input value rest
  | 0, _, _, _, _, read => by simp [readValue] at read
  | fuel + 1, room, input, rest, value, read => by
    unfold readValue at read
    split at read
    next => cases read
    next left =>
      obtain ⟨rfl, rfl⟩ := map_readWord_eq_ok_iff.mp read
      exact isValue_iff.mpr ⟨_, blanks_of_skipBlanks left, .inl (.null rest)⟩
    next left =>
      obtain ⟨rfl, rfl⟩ := map_readWord_eq_ok_iff.mp read
      exact isValue_iff.mpr ⟨_, blanks_of_skipBlanks left, .inl (.isTrue rest)⟩
    next left =>
      obtain ⟨rfl, rfl⟩ := map_readWord_eq_ok_iff.mp read
      exact isValue_iff.mpr ⟨_, blanks_of_skipBlanks left, .inl (.isFalse rest)⟩
    next left =>
      obtain ⟨⟨content, last⟩, quoted, same⟩ := map_eq_ok_iff.mp read
      cases same
      exact isValue_iff.mpr ⟨_, blanks_of_skipBlanks left,
        .inl (.text ⟨_, quoted_ofList quoted, rfl⟩)⟩
    next left =>
      obtain ⟨⟨number, last⟩, digits, same⟩ := map_eq_ok_iff.mp read
      cases same
      obtain ⟨numeral, found, meant⟩ := unsigned_of_readNumber digits
      exact isValue_iff.mpr ⟨_, blanks_of_skipBlanks left,
        .inl (.negative ⟨numeral, number, found, meant, rfl⟩)⟩
    next left =>
      split at read
      next => cases read
      next room =>
        obtain ⟨⟨items, last⟩, inner, same⟩ := map_eq_ok_iff.mp read
        cases same
        exact ⟨_, blanks_of_skipBlanks left, .inr (.array (series_of_readItems fuel inner))⟩
    next left =>
      split at read
      next => cases read
      next room =>
        obtain ⟨⟨entries, last⟩, inner, same⟩ := map_eq_ok_iff.mp read
        cases same
        exact ⟨_, blanks_of_skipBlanks left, .inr (.object (series_of_readEntries fuel inner))⟩
    next left =>
      split at read
      next isDigit =>
        obtain ⟨⟨number, last⟩, digits, same⟩ := map_eq_ok_iff.mp read
        cases same
        obtain ⟨numeral, found, meant⟩ := unsigned_of_readNumber digits
        exact isValue_iff.mpr ⟨_, blanks_of_skipBlanks left,
          .inl (.number ⟨numeral, number, found, meant, rfl⟩)⟩
      next => cases read

theorem series_of_readItems : ∀ (fuel : Nat) {room : Nat} {input rest : List Char}
    {items : List Value}, readItems fuel room input = .ok (items, rest) →
    Series (IsValue exact room) ']' input items rest
  | 0, _, _, _, _, read => by simp [readItems] at read
  | fuel + 1, room, input, rest, items, read => by
    unfold readItems at read
    split at read
    next left =>
      cases read
      exact .empty (blanks_of_skipBlanks left)
    next =>
      obtain ⟨⟨item, middle⟩, first, read⟩ := bind_eq_ok_iff.mp read
      obtain ⟨⟨others, last⟩, behind, same⟩ := bind_eq_ok_iff.mp read
      cases same
      exact .filled (isValue_of_readValue fuel first) (tail_of_readMoreItems fuel behind)

theorem tail_of_readMoreItems : ∀ (fuel : Nat) {room : Nat} {input rest : List Char}
    {items : List Value}, readMoreItems fuel room input = .ok (items, rest) →
    Tail (IsValue exact room) ']' input items rest
  | 0, _, _, _, _, read => by simp [readMoreItems] at read
  | fuel + 1, room, input, rest, items, read => by
    unfold readMoreItems at read
    split at read
    next => cases read
    next left =>
      cases read
      exact .close (blanks_of_skipBlanks left)
    next left =>
      obtain ⟨⟨item, middle⟩, first, read⟩ := bind_eq_ok_iff.mp read
      obtain ⟨⟨others, last⟩, behind, same⟩ := bind_eq_ok_iff.mp read
      cases same
      exact .more (blanks_of_skipBlanks left) (isValue_of_readValue fuel first)
        (tail_of_readMoreItems fuel behind)
    next => cases read

theorem series_of_readEntries : ∀ (fuel : Nat) {room : Nat} {input rest : List Char}
    {entries : List (String × Value)}, readEntries fuel room input = .ok (entries, rest) →
    Series (Entry exact.Key (IsValue exact room)) '}' input entries rest
  | 0, _, _, _, _, read => by simp [readEntries] at read
  | fuel + 1, room, input, rest, entries, read => by
    unfold readEntries at read
    split at read
    next => cases read
    next left =>
      cases read
      exact .empty (blanks_of_skipBlanks left)
    next left =>
      obtain ⟨entry, others, middle, rfl, first, behind⟩ :=
        entry_of_readEntry fuel (blanks_of_skipBlanks left) read
      exact .filled first behind
    next => cases read

theorem entry_of_readEntry : ∀ (fuel : Nat) {room : Nat} {input quoted rest : List Char}
    {entries : List (String × Value)}, Blanks input ('"' :: quoted) →
    readEntry fuel room quoted = .ok (entries, rest) →
    ∃ entry others middle, entries = entry :: others ∧
      Entry exact.Key (IsValue exact room) input entry middle ∧
      Tail (Entry exact.Key (IsValue exact room)) '}' middle others rest
  | 0, _, _, _, _, _, _, read => by simp [readEntry] at read
  | fuel + 1, room, input, quoted, rest, entries, quote, read => by
    unfold readEntry at read
    obtain ⟨⟨key, after⟩, name, read⟩ := bind_eq_ok_iff.mp read
    obtain ⟨behind, colon, read⟩ := bind_eq_ok_iff.mp read
    obtain ⟨⟨value, middle⟩, first, read⟩ := bind_eq_ok_iff.mp read
    obtain ⟨⟨others, last⟩, more, same⟩ := bind_eq_ok_iff.mp read
    cases same
    exact ⟨_, others, middle, rfl,
      .pair quote (quoted_ofList name) (readColon_eq_ok_iff.mp colon)
        (isValue_of_readValue fuel first),
      tail_of_readMoreEntries fuel more⟩

theorem tail_of_readMoreEntries : ∀ (fuel : Nat) {room : Nat} {input rest : List Char}
    {entries : List (String × Value)}, readMoreEntries fuel room input = .ok (entries, rest) →
    Tail (Entry exact.Key (IsValue exact room)) '}' input entries rest
  | 0, _, _, _, _, read => by simp [readMoreEntries] at read
  | fuel + 1, room, input, rest, entries, read => by
    unfold readMoreEntries at read
    split at read
    next => cases read
    next left =>
      cases read
      exact .close (blanks_of_skipBlanks left)
    next left =>
      split at read
      next => cases read
      next quote =>
        obtain ⟨entry, others, middle, rfl, first, behind⟩ :=
          entry_of_readEntry fuel (blanks_of_skipBlanks quote) read
        exact .more (blanks_of_skipBlanks left) first behind
      next => cases read
    next => cases read

end

/-! ## A value is read -/

section Reads

variable {fuel room : Nat} {input rest : List Char}

theorem Scalar.readValue_eq {front : List Char} {value : Value} (blanks : Blanks input front)
    (scalar : Scalar exact front value rest) (stops : StopsNumber rest) :
    readValue (fuel + 1) room input = .ok (value, rest) := by
  cases scalar with
  | null | isTrue | isFalse =>
    have left := blanks.first rfl
    simp only [readValue, left]
    exact map_readWord_eq_ok_iff.mpr ⟨rfl, rfl⟩
  | text found =>
    obtain ⟨text, quoted, rfl⟩ := found
    simp [readValue, blanks.first rfl, readQuoted_eq_ok_iff.mpr quoted, Except.map]
  | negative found =>
    obtain ⟨numeral, number, found, meant, rfl⟩ := found
    simp [readValue, blanks.first rfl, found.readNumber_eq stops meant, Except.map]
  | number found =>
    obtain ⟨numeral, number, found, meant, rfl⟩ := found
    obtain ⟨_, digit, others, rfl, isDigit⟩ := found.shorter
    have same : skipBlanks (digit :: others) = skipBlanks input := blanks.skipBlanks_eq.symm
    have read := readValue_digit isDigit fuel room others
    rw [readValue, same] at read
    rw [readValue, read, found.readNumber_eq stops meant]
    rfl

/-- Values with so much room are read if there is fuel for all their characters. -/
def AllRead (room : Nat) : Prop :=
  ∀ {fuel : Nat} {input rest : List Char} {value : Value}, IsValue exact room input value rest →
    StopsNumber rest → 3 * input.length + 1 ≤ fuel → readValue fuel room input = .ok (value, rest)

theorem Tail.readMoreItems_eq {items : List Value} (inner : AllRead room)
    (tail : Tail (IsValue exact room) ']' input items rest) (enough : 3 * input.length + 1 ≤ fuel) :
    readMoreItems fuel room input = .ok (items, rest) := by
  induction tail generalizing fuel with
  | close bracket =>
    obtain ⟨fuel, rfl⟩ := Nat.exists_eq_add_one.mpr (Nat.zero_lt_of_lt enough)
    have left := bracket.first rfl
    simp [readMoreItems, left]
  | more comma element others ih =>
    obtain ⟨fuel, rfl⟩ := Nat.exists_eq_add_one.mpr (Nat.zero_lt_of_lt enough)
    have left := comma.first rfl
    have length := comma.length_le
    have shorter := (element.front exact_isProper).1
    simp only [List.length_cons] at length
    have first := inner element (others.stopsNumber (.inl rfl)) (show _ ≤ fuel by omega)
    have behind := ih (show _ ≤ fuel by omega)
    simp [readMoreItems, left, first, behind, bind, Except.bind]

theorem Series.readItems_eq {items : List Value} (inner : AllRead room)
    (series : Series (IsValue exact room) ']' input items rest)
    (enough : 3 * input.length + 2 ≤ fuel) : readItems fuel room input = .ok (items, rest) := by
  obtain ⟨fuel, rfl⟩ := Nat.exists_eq_add_one.mpr (Nat.zero_lt_of_lt enough)
  cases series with
  | empty bracket =>
    have left := bracket.first rfl
    simp [readItems, left]
  | filled element others =>
    obtain ⟨shorter, char, front, left, noBracket⟩ := element.front exact_isProper
    have first := inner element (others.stopsNumber (.inl rfl)) (show _ ≤ fuel by omega)
    have behind := others.readMoreItems_eq inner (show _ ≤ fuel by omega)
    simp [readItems, left, noBracket, first, behind, bind, Except.bind]

theorem readEntry_eq {quoted after behind middle : List Char} {name : String} {value : Value}
    {entries : List (String × Value)} (key : Quoted quoted name.toList after)
    (colon : Blanks after (':' :: behind))
    (first : readValue fuel room behind = .ok (value, middle))
    (others : readMoreEntries fuel room middle = .ok (entries, rest)) :
    readEntry (fuel + 1) room quoted = .ok ((name, value) :: entries, rest) := by
  simp [readEntry, readQuoted_eq_ok_iff.mpr key, readColon_eq_ok_iff.mpr colon, first, others, bind,
    Except.bind]

theorem Tail.readMoreEntries_eq {entries : List (String × Value)} (inner : AllRead room)
    (tail : Tail (Entry exact.Key (IsValue exact room)) '}' input entries rest)
    (enough : 3 * input.length + 1 ≤ fuel) :
    readMoreEntries fuel room input = .ok (entries, rest) := by
  induction tail generalizing fuel with
  | close bracket =>
    obtain ⟨fuel, rfl⟩ := Nat.exists_eq_add_one.mpr (Nat.zero_lt_of_lt enough)
    have left := bracket.first rfl
    simp [readMoreEntries, left]
  | more comma element others ih =>
    obtain ⟨quote, key, colon, element⟩ := element
    have lengths := And.intro comma.length_le (And.intro quote.length_le colon.length_le)
    have shorter := And.intro (exact_isProper.key key) (element.front exact_isProper).1
    simp only [List.length_cons] at lengths
    obtain ⟨fuel, rfl⟩ : ∃ left, fuel = left + 2 := Nat.exists_eq_add_of_le' (by omega)
    have afterBlanks := comma.first rfl
    have afterComma := quote.first rfl
    have first := inner element (others.stopsNumber (.inr rfl)) (show _ ≤ fuel by omega)
    have behind := ih (show _ ≤ fuel by omega)
    simp [readMoreEntries, afterBlanks, afterComma, readEntry_eq key colon first behind]

theorem Series.readEntries_eq {entries : List (String × Value)} (inner : AllRead room)
    (series : Series (Entry exact.Key (IsValue exact room)) '}' input entries rest)
    (enough : 3 * input.length + 1 ≤ fuel) : readEntries fuel room input = .ok (entries, rest) := by
  cases series with
  | empty bracket =>
    obtain ⟨fuel, rfl⟩ := Nat.exists_eq_add_one.mpr (Nat.zero_lt_of_lt enough)
    have left := bracket.first rfl
    simp [readEntries, left]
  | filled element others =>
    obtain ⟨quote, key, colon, element⟩ := element
    have lengths := And.intro quote.length_le colon.length_le
    have shorter := And.intro (exact_isProper.key key) (element.front exact_isProper).1
    simp only [List.length_cons] at lengths
    obtain ⟨fuel, rfl⟩ : ∃ left, fuel = left + 2 := Nat.exists_eq_add_of_le' (by omega)
    have left := quote.first rfl
    have first := inner element (others.stopsNumber (.inr rfl)) (show _ ≤ fuel by omega)
    have behind := others.readMoreEntries_eq inner (show _ ≤ fuel by omega)
    simp [readEntries, left, readEntry_eq key colon first behind]

/-- A value is read up to a text that adds nothing to a number. -/
theorem allRead (room : Nat) : AllRead room := by
  induction room using Nat.strongRecOn with
  | ind room ih =>
    intro fuel input rest value found stops enough
    obtain ⟨fuel, rfl⟩ := Nat.exists_eq_add_one.mpr (Nat.zero_lt_of_lt enough)
    obtain ⟨front, blanks, scalar | ⟨lower, rfl, container⟩⟩ := isValue_iff.mp found
    · exact scalar.readValue_eq blanks stops
    · have inner : AllRead lower := ih lower (Nat.lt_succ_self lower)
      have length := blanks.length_le
      cases container with
      | array series =>
        have left := blanks.first rfl
        simp only [List.length_cons] at length
        have items := series.readItems_eq inner (show _ ≤ fuel by omega)
        simp [readValue, left, items, Except.map, exact]
      | object series =>
        have left := blanks.first rfl
        simp only [List.length_cons] at length
        have entries := series.readEntries_eq inner (show _ ≤ fuel by omega)
        simp [readValue, left, entries, Except.map, exact]

theorem stopsNumber_of_blanks_nil (blanks : Blanks rest []) : StopsNumber rest := by
  cases blanks with
  | none => exact nofun
  | more blank others => exact stopsNumber_of_isJsonBlank blank _

/-- A text is read exactly if it is a value with blanks around it. -/
theorem read_eq_ok_iff {value : Value} :
    read input = .ok value ↔ ∃ rest, IsValue exact maxDepth input value rest ∧ Blanks rest [] := by
  constructor
  · intro read
    obtain ⟨⟨found, rest⟩, first, read⟩ := bind_eq_ok_iff.mp read
    obtain ⟨_, last, same⟩ := bind_eq_ok_iff.mp read
    cases same
    exact ⟨rest, isValue_of_readValue _ first, readEnd_eq_ok_iff.mp last⟩
  · rintro ⟨rest, found, blanks⟩
    have first := allRead maxDepth found (stopsNumber_of_blanks_nil blanks)
      (show _ ≤ fuelFor input by unfold fuelFor; omega)
    simp [read, first, readEnd_eq_ok_iff.mpr blanks, bind, Except.bind]

end Reads

/-! ## Values of one kind -/

/-- A number that is read, after blanks. -/
def IsNumber (input : List Char) (number : Number) (rest : List Char) : Prop :=
  ∃ negative front numeral, Blanks input (if negative then '-' :: front else front) ∧
    Unsigned front numeral rest ∧ numeral.value? negative = some number

/-- How a value of each kind is written. -/
def IsWritten (room : Nat) (input : List Char) (value : Value) (rest : List Char) : Prop :=
  match value with
  | .null => Blanks input (['n', 'u', 'l', 'l'] ++ rest)
  | .bool true => Blanks input (['t', 'r', 'u', 'e'] ++ rest)
  | .bool false => Blanks input (['f', 'a', 'l', 's', 'e'] ++ rest)
  | .int number => IsNumber input (.int number) rest
  | .float number => IsNumber input (.float number) rest
  | .text text => ∃ quoted, Blanks input ('"' :: quoted) ∧ Quoted quoted text.toList rest
  | .array items => ∃ lower front, room = lower + 1 ∧ Blanks input ('[' :: front) ∧
      Series (IsValue exact lower) ']' front items rest
  | .object entries => ∃ lower front pairs, room = lower + 1 ∧ Blanks input ('{' :: front) ∧
      Series (Entry exact.Key (IsValue exact lower)) '}' front pairs rest ∧
      entries = Assoc.ofPairs pairs

theorem isWritten_number {room : Nat} {input rest : List Char} {number : Number} :
    IsWritten room input number.toValue rest ↔ IsNumber input number rest := by
  cases number <;> rfl

theorem IsNumber.isValue {room : Nat} {input rest : List Char} {number : Number}
    (found : IsNumber input number rest) : IsValue exact room input number.toValue rest := by
  obtain ⟨negative, front, numeral, blanks, found, meant⟩ := found
  cases negative with
  | false => exact isValue_iff.mpr ⟨_, blanks, .inl (.number ⟨numeral, number, found, meant, rfl⟩)⟩
  | true => exact isValue_iff.mpr ⟨_, blanks, .inl (.negative ⟨numeral, number, found, meant, rfl⟩)⟩

theorem isValue_iff_isWritten {room : Nat} {input rest : List Char} {value : Value} :
    IsValue exact room input value rest ↔ IsWritten room input value rest := by
  constructor
  · intro found
    obtain ⟨front, blanks, scalar | ⟨lower, rfl, container⟩⟩ := isValue_iff.mp found
    · cases scalar with
      | null | isTrue | isFalse => exact blanks
      | text found =>
        obtain ⟨text, quoted, rfl⟩ := found
        exact ⟨_, blanks, quoted⟩
      | negative digits =>
        obtain ⟨numeral, number, digits, meant, rfl⟩ := digits
        exact isWritten_number.mpr ⟨true, _, numeral, blanks, digits, meant⟩
      | number digits =>
        obtain ⟨numeral, number, digits, meant, rfl⟩ := digits
        exact isWritten_number.mpr ⟨false, _, numeral, blanks, digits, meant⟩
    · cases container with
      | array series => exact ⟨lower, _, rfl, blanks, series⟩
      | object series => exact ⟨lower, _, _, rfl, blanks, series, rfl⟩
  · intro found
    cases value with
    | null => exact isValue_iff.mpr ⟨_, found, .inl (.null rest)⟩
    | bool flag =>
      cases flag with
      | true => exact isValue_iff.mpr ⟨_, found, .inl (.isTrue rest)⟩
      | false => exact isValue_iff.mpr ⟨_, found, .inl (.isFalse rest)⟩
    | int number => exact IsNumber.isValue found
    | float number => exact IsNumber.isValue found
    | text text =>
      obtain ⟨quoted, blanks, found⟩ := found
      exact isValue_iff.mpr ⟨_, blanks, .inl (.text ⟨text, found, rfl⟩)⟩
    | array items =>
      obtain ⟨lower, front, rfl, blanks, series⟩ := found
      exact ⟨_, blanks, .inr (.array series)⟩
    | object entries =>
      obtain ⟨lower, front, pairs, rfl, blanks, series, rfl⟩ := found
      exact ⟨_, blanks, .inr (.object series)⟩

end Recast.Json
