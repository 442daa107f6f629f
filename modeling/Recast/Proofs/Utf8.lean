import Recast.Text.Utf8

set_option autoImplicit false

/-!
# Bytes of a text

Reading the bytes of a text gives the text back, no other bytes are read as that text, and an ASCII
byte stands for its own character only.
-/

namespace Recast.Text

private theorem toNat_ofNat_of_lt {number : Nat} (small : number < 256) :
    (UInt8.ofNat number).toNat = number := by
  rw [UInt8.toNat_ofNat', Nat.mod_eq_of_lt small]

/-- A byte that goes on with a character and carries the low bits of a number. -/
def following (number : Nat) : UInt8 :=
  UInt8.ofNat (number % 0x40 + 0x80)

private theorem toNat_following (number : Nat) :
    (following number).toNat = number % 0x40 + 0x80 :=
  toNat_ofNat_of_lt (by omega)

private theorem isContinuation_following (number : Nat) :
    isContinuation (following number) = true := by
  simp only [isContinuation, Bool.and_eq_true, decide_eq_true_eq, UInt8.le_iff_toNat_le,
    UInt8.lt_iff_toNat_lt, toNat_following, UInt8.reduceToNat]
  omega

private theorem payload_following (number : Nat) : payload (following number) = number % 0x40 := by
  rw [payload, toNat_following]
  omega

private theorem ofNat_lt_iff {number : Nat} (small : number < 256) (bound : UInt8) :
    UInt8.ofNat number < bound ↔ number < bound.toNat := by
  rw [UInt8.lt_iff_toNat_lt, toNat_ofNat_of_lt small]

/-! ## One character -/

section Lead

variable {lead : Nat} (second third fourth : Nat) (rest : List UInt8)

private theorem decodeChar?_one (below : lead < 0x80) :
    decodeChar? (UInt8.ofNat lead :: rest) = some (Char.ofNat lead, rest) := by
  have value : (UInt8.ofNat lead).toNat = lead := toNat_ofNat_of_lt (by omega)
  have compare := ofNat_lt_iff (show lead < 256 by omega)
  simp only [decodeChar?, compare, UInt8.reduceToNat, below, if_true, value]

private theorem decodeChar?_two (above : 0xC2 ≤ lead) (below : lead < 0xE0) :
    decodeChar? (UInt8.ofNat lead :: following second :: rest) =
      some (Char.ofNat ((lead - 0xC0) * 64 + second % 0x40), rest) := by
  have value : (UInt8.ofNat lead).toNat = lead := toNat_ofNat_of_lt (by omega)
  have compare := ofNat_lt_iff (show lead < 256 by omega)
  have notOne : ¬ lead < 128 := by omega
  have notShort : ¬ lead < 194 := by omega
  simp only [decodeChar?, compare, UInt8.reduceToNat, notOne, notShort, below, if_true, if_false,
    isContinuation_following, payload_following, value]

private theorem decodeChar?_three {code : Nat} (above : 0xE0 ≤ lead) (below : lead < 0xF0)
    (value : (lead - 0xE0) * 4096 + second % 0x40 * 64 + third % 0x40 = code)
    (large : 0x800 ≤ code) (noSurrogate : code < 0xD800 ∨ 0xDFFF < code) :
    decodeChar? (UInt8.ofNat lead :: following second :: following third :: rest) =
      some (Char.ofNat code, rest) := by
  have leading : (UInt8.ofNat lead).toNat = lead := toNat_ofNat_of_lt (by omega)
  have compare := ofNat_lt_iff (show lead < 256 by omega)
  have notOne : ¬ lead < 128 := by omega
  have notShort : ¬ lead < 194 := by omega
  have notTwo : ¬ lead < 224 := by omega
  have outside : (decide (0xD800 ≤ code) && decide (code ≤ 0xDFFF)) = false := by
    rw [Bool.and_eq_false_iff, decide_eq_false_iff_not, decide_eq_false_iff_not]
    omega
  simp only [decodeChar?, compare, UInt8.reduceToNat, notOne, notShort, notTwo, below, if_true,
    if_false, isContinuation_following, payload_following, leading, value, large, outside,
    decide_true, Bool.and_self, Bool.not_false]

private theorem decodeChar?_four {code : Nat} (above : 0xF0 ≤ lead) (below : lead < 0xF5)
    (value : (lead - 0xF0) * 262144 + second % 0x40 * 4096 + third % 0x40 * 64 + fourth % 0x40 =
      code) (large : 0x10000 ≤ code) (small : code ≤ 0x10FFFF) :
    decodeChar? (UInt8.ofNat lead :: following second :: following third :: following fourth ::
      rest) = some (Char.ofNat code, rest) := by
  have leading : (UInt8.ofNat lead).toNat = lead := toNat_ofNat_of_lt (by omega)
  have compare := ofNat_lt_iff (show lead < 256 by omega)
  have notOne : ¬ lead < 128 := by omega
  have notShort : ¬ lead < 194 := by omega
  have notTwo : ¬ lead < 224 := by omega
  have notThree : ¬ lead < 240 := by omega
  simp only [decodeChar?, compare, UInt8.reduceToNat, notOne, notShort, notTwo, notThree, below,
    if_true, if_false, isContinuation_following, payload_following, leading, value, large, small,
    decide_true, Bool.and_self]

end Lead

/-- The first character of a text is read from its bytes, whatever follows them. -/
theorem decodeChar?_encodeChar (char : Char) (rest : List UInt8) :
    decodeChar? (encodeChar char ++ rest) = some (char, rest) := by
  have valid : char.toNat < 0xD800 ∨ 0xDFFF < char.toNat ∧ char.toNat < 0x110000 := char.valid
  have same : Char.ofNat char.toNat = char := Char.ofNat_toNat char
  have val : char.val.toNat = char.toNat := rfl
  simp only [encodeChar, String.utf8EncodeChar, val]
  generalize char.toNat = code at valid same
  rw [← same]
  split
  next one => exact decodeChar?_one rest (by omega)
  next =>
    split
    next two =>
      refine (decodeChar?_two code rest (by omega) (by omega)).trans ?_
      congr 3
      omega
    next =>
      split
      next three =>
        exact decodeChar?_three (code / 64) code rest (by omega) (by omega) (by omega) (by omega)
          (by omega)
      next =>
        exact decodeChar?_four (code / 4096) (code / 64) code rest (by omega) (by omega) (by omega)
          (by omega) (by omega)

theorem encodeChar_ne_nil (char : Char) : encodeChar char ≠ [] := by
  intro empty
  have read := decodeChar?_encodeChar char []
  rw [empty] at read
  cases read

theorem encodeUtf8_cons (char : Char) (rest : List Char) :
    encodeUtf8 (char :: rest) = encodeChar char ++ encodeUtf8 rest := rfl

theorem encodeUtf8_append (left right : List Char) :
    encodeUtf8 (left ++ right) = encodeUtf8 left ++ encodeUtf8 right :=
  List.flatMap_append

private theorem decodeFrom?_encodeUtf8 (text : List Char) (fuel : Nat)
    (enough : text.length ≤ fuel) : decodeFrom? fuel (encodeUtf8 text) = some text := by
  induction text generalizing fuel with
  | nil => cases fuel <;> rfl
  | cons char rest ih =>
    cases fuel with
    | zero => cases enough
    | succ fuel =>
      have read := decodeChar?_encodeChar char (encodeUtf8 rest)
      rw [encodeUtf8_cons]
      cases bytes : encodeChar char ++ encodeUtf8 rest with
      | nil =>
        exact absurd (List.append_eq_nil_iff.mp bytes).1 (encodeChar_ne_nil char)
      | cons byte others =>
        rw [bytes] at read
        simp only [decodeFrom?, read, ih fuel (Nat.le_of_succ_le_succ enough), Option.map_some]

theorem length_le_length_encodeUtf8 (text : List Char) :
    text.length ≤ (encodeUtf8 text).length := by
  induction text with
  | nil => exact Nat.le_refl _
  | cons char rest ih =>
    have first := List.length_pos_iff.mpr (encodeChar_ne_nil char)
    rw [encodeUtf8_cons, List.length_append, List.length_cons]
    omega

/-- The bytes of a text read back as that text. -/
theorem decodeUtf8?_encodeUtf8 (text : List Char) : decodeUtf8? (encodeUtf8 text) = some text :=
  decodeFrom?_encodeUtf8 text _ (length_le_length_encodeUtf8 text)

/-- An ASCII byte stands for itself and occurs in no other character. -/
theorem mem_encodeChar_ascii {char : Char} {byte : UInt8} (ascii : byte.toNat < 0x80) :
    byte ∈ encodeChar char ↔ char.toNat = byte.toNat := by
  have valid : char.toNat < 0xD800 ∨ 0xDFFF < char.toNat ∧ char.toNat < 0x110000 := char.valid
  have val : char.val.toNat = char.toNat := rfl
  have apart : ∀ number, 0x80 ≤ number → number < 256 → byte ≠ UInt8.ofNat number := by
    rintro number large small rfl
    rw [toNat_ofNat_of_lt small] at ascii
    omega
  simp only [encodeChar, String.utf8EncodeChar, val]
  generalize char.toNat = code at valid
  by_cases one : code ≤ 0x7F
  · simp only [one, if_true, List.mem_singleton, ← UInt8.toNat_inj]
    rw [toNat_ofNat_of_lt (by omega), eq_comm]
  have other : code ≠ byte.toNat := by omega
  by_cases two : code ≤ 0x7FF
  · simp only [one, two, if_true, if_false, List.mem_cons, List.not_mem_nil, other, or_false,
      iff_false, not_or]
    exact ⟨apart _ (by omega) (by omega), apart _ (by omega) (by omega)⟩
  by_cases three : code ≤ 0xFFFF
  · simp only [one, two, three, if_true, if_false, List.mem_cons, List.not_mem_nil, other,
      or_false, iff_false, not_or]
    exact ⟨apart _ (by omega) (by omega), apart _ (by omega) (by omega),
      apart _ (by omega) (by omega)⟩
  · simp only [one, two, three, if_false, List.mem_cons, List.not_mem_nil, other, or_false,
      iff_false, not_or]
    exact ⟨apart _ (by omega) (by omega), apart _ (by omega) (by omega),
      apart _ (by omega) (by omega), apart _ (by omega) (by omega)⟩

/-! ## No other bytes -/

section Bytes

variable {lead second third fourth : UInt8}

private theorem ofNat_eq_self (byte : UInt8) {number : Nat} (same : number = byte.toNat) :
    UInt8.ofNat number = byte := by
  rw [same, UInt8.ofNat_toNat]

private theorem toNat_of_isContinuation {byte : UInt8} (continues : isContinuation byte = true) :
    byte.toNat = payload byte + 0x80 ∧ payload byte < 0x40 := by
  simp only [isContinuation, Bool.and_eq_true, decide_eq_true_eq, UInt8.le_iff_toNat_le,
    UInt8.lt_iff_toNat_lt, UInt8.reduceToNat] at continues
  simp only [payload]
  omega

private theorem encodeChar_ofNat {code : Nat} (valid : code.isValidChar) :
    encodeChar (Char.ofNat code) =
      if code ≤ 0x7F then [UInt8.ofNat code]
      else if code ≤ 0x7FF then
        [UInt8.ofNat (code / 64 % 32 + 192), UInt8.ofNat (code % 64 + 128)]
      else if code ≤ 0xFFFF then
        [UInt8.ofNat (code / 4096 % 16 + 224), UInt8.ofNat (code / 64 % 64 + 128),
          UInt8.ofNat (code % 64 + 128)]
      else
        [UInt8.ofNat (code / 262144 % 8 + 240), UInt8.ofNat (code / 4096 % 64 + 128),
          UInt8.ofNat (code / 64 % 64 + 128), UInt8.ofNat (code % 64 + 128)] := by
  have val : (Char.ofNat code).val.toNat = code := by
    rw [Char.ofNat, dif_pos valid]
    rfl
  simp only [encodeChar, String.utf8EncodeChar, val]

private theorem encodeChar_one (below : lead.toNat < 0x80) :
    encodeChar (Char.ofNat lead.toNat) = [lead] := by
  rw [encodeChar_ofNat (.inl (by omega)), if_pos (by omega), UInt8.ofNat_toNat]

private theorem encodeChar_two (above : 0xC2 ≤ lead.toNat) (below : lead.toNat < 0xE0)
    (next : isContinuation second = true) :
    encodeChar (Char.ofNat ((lead.toNat - 0xC0) * 64 + payload second)) = [lead, second] := by
  have last := toNat_of_isContinuation next
  rw [encodeChar_ofNat (.inl (by omega)), if_neg (by omega), if_pos (by omega),
    ofNat_eq_self lead (by omega), ofNat_eq_self second (by omega)]

private theorem encodeChar_three {code : Nat} (above : 0xE0 ≤ lead.toNat)
    (below : lead.toNat < 0xF0) (next : isContinuation second = true)
    (last : isContinuation third = true)
    (value : (lead.toNat - 0xE0) * 4096 + payload second * 64 + payload third = code)
    (large : 0x800 ≤ code) (noSurrogate : code < 0xD800 ∨ 0xDFFF < code) :
    encodeChar (Char.ofNat code) = [lead, second, third] := by
  have middle := toNat_of_isContinuation next
  have final := toNat_of_isContinuation last
  have valid : code.isValidChar := by
    rcases noSurrogate with low | high
    · exact .inl low
    · exact .inr ⟨high, by omega⟩
  rw [encodeChar_ofNat valid, if_neg (by omega), if_neg (by omega), if_pos (by omega),
    ofNat_eq_self lead (by omega), ofNat_eq_self second (by omega),
    ofNat_eq_self third (by omega)]

private theorem encodeChar_four {code : Nat} (above : 0xF0 ≤ lead.toNat)
    (below : lead.toNat < 0xF5) (next : isContinuation second = true)
    (after : isContinuation third = true)
    (last : isContinuation fourth = true)
    (value : (lead.toNat - 0xF0) * 262144 + payload second * 4096 + payload third * 64 +
      payload fourth = code) (large : 0x10000 ≤ code) (small : code ≤ 0x10FFFF) :
    encodeChar (Char.ofNat code) = [lead, second, third, fourth] := by
  have early := toNat_of_isContinuation next
  have late := toNat_of_isContinuation after
  have final := toNat_of_isContinuation last
  rw [encodeChar_ofNat (.inr ⟨by omega, by omega⟩), if_neg (by omega), if_neg (by omega),
    if_neg (by omega), ofNat_eq_self lead (by omega),
    ofNat_eq_self second (by omega), ofNat_eq_self third (by omega),
    ofNat_eq_self fourth (by omega)]

end Bytes

/-- The bytes from which a character is read are the bytes of that character. -/
theorem encodeChar_of_decodeChar? {bytes rest : List UInt8} {char : Char}
    (read : decodeChar? bytes = some (char, rest)) : encodeChar char ++ rest = bytes := by
  unfold decodeChar? at read
  simp only [UInt8.lt_iff_toNat_lt, UInt8.reduceToNat] at read
  split at read
  next => cases read
  next lead others =>
  split at read
  next one =>
    cases read
    rw [encodeChar_one one, List.singleton_append]
  split at read
  next => cases read
  next _ long =>
  have least : 0xC2 ≤ lead.toNat := Nat.le_of_not_lt long
  split at read
  next two =>
    split at read
    next second others =>
      split at read
      next continues =>
        cases read
        rw [encodeChar_two least two continues]
        rfl
      next => cases read
    next => cases read
  next noTwo =>
  split at read
  next three =>
    split at read
    next second third others =>
      split at read
      next fits =>
        cases read
        simp only [Bool.and_eq_true, decide_eq_true_eq, Bool.not_eq_true', Bool.and_eq_false_iff,
          decide_eq_false_iff_not] at fits
        obtain ⟨⟨⟨next, last⟩, large⟩, noSurrogate⟩ := fits
        rw [encodeChar_three (Nat.le_of_not_lt noTwo) three next last rfl large (by omega)]
        rfl
      next => cases read
    next => cases read
  next noThree =>
  split at read
  next four =>
    split at read
    next second third fourth others =>
      split at read
      next fits =>
        cases read
        simp only [Bool.and_eq_true, decide_eq_true_eq] at fits
        obtain ⟨⟨⟨⟨next, after⟩, last⟩, large⟩, small⟩ := fits
        rw [encodeChar_four (Nat.le_of_not_lt noThree) four next after last rfl large small]
        rfl
      next => cases read
    next => cases read
  next => cases read

/-- Bytes are read as a text exactly if they are the bytes of that text. -/
theorem decodeUtf8?_eq_some_iff {bytes : List UInt8} {text : List Char} :
    decodeUtf8? bytes = some text ↔ bytes = encodeUtf8 text := by
  have sound : ∀ (fuel : Nat) (bytes : List UInt8) (text : List Char),
      decodeFrom? fuel bytes = some text → bytes = encodeUtf8 text := by
    intro fuel bytes text read
    induction fuel generalizing bytes text with
    | zero =>
      cases bytes with
      | nil => cases read; rfl
      | cons byte rest => cases read
    | succ fuel ih =>
      cases bytes with
      | nil => cases read; rfl
      | cons byte rest =>
        simp only [decodeFrom?] at read
        split at read
        next => cases read
        next char others first =>
          obtain ⟨text, decoded, rfl⟩ := Option.map_eq_some_iff.mp read
          rw [encodeUtf8_cons, ← ih others text decoded, encodeChar_of_decodeChar? first]
  constructor
  · exact sound bytes.length bytes text
  · rintro rfl
    exact decodeUtf8?_encodeUtf8 text

end Recast.Text
