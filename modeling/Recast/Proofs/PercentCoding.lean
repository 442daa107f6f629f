import Recast.Proofs.Utf8
import Recast.Script.Library

set_option autoImplicit false

/-!
# Percent coding

What coded texts look like, which bytes any text stands for, and that the library's two functions
undo each other.
-/

namespace Recast

namespace Url

/-! ## What texts stand for -/

/-- A text that begins with a percent sign and two hexadecimal digits. -/
def BeginsWithGroup (text : List Char) : Prop :=
  ∃ high low rest, text = '%' :: high :: low :: rest ∧
    (Json.hexValue? high).isSome = true ∧ (Json.hexValue? low).isSome = true

/-- The bytes that a text stands for: a group is one byte, and every other character is itself. -/
inductive StandsFor : List Char → List UInt8 → Prop where
  | nil : StandsFor [] []
  | group {high low : Char} {upper lower : Nat} {rest : List Char} {bytes : List UInt8}
      (first : Json.hexValue? high = some upper) (second : Json.hexValue? low = some lower)
      (others : StandsFor rest bytes) :
      StandsFor ('%' :: high :: low :: rest) (UInt8.ofNat (upper * 16 + lower) :: bytes)
  | char {char : Char} {rest : List Char} {bytes : List UInt8}
      (single : ¬ BeginsWithGroup (char :: rest)) (others : StandsFor rest bytes) :
      StandsFor (char :: rest) (Text.encodeChar char ++ bytes)

/-- A coded text: ASCII letters and digits, and groups of a percent sign and two digits. -/
inductive IsCoded : List Char → Prop where
  | nil : IsCoded []
  | plain {char : Char} {rest : List Char} (alphanumeric : char.isAlphanum = true)
      (others : IsCoded rest) : IsCoded (char :: rest)
  | group {high low : Char} {rest : List Char} (first : high ∈ "0123456789ABCDEF".toList)
      (second : low ∈ "0123456789ABCDEF".toList) (others : IsCoded rest) :
      IsCoded ('%' :: high :: low :: rest)

theorem beginsWithGroup_iff {high low : Char} {rest : List Char} :
    BeginsWithGroup ('%' :: high :: low :: rest) ↔
      ∃ upper lower, Json.hexValue? high = some upper ∧ Json.hexValue? low = some lower := by
  constructor
  · rintro ⟨_, _, _, same, first, second⟩
    cases same
    obtain ⟨upper, first⟩ := Option.isSome_iff_exists.mp first
    obtain ⟨lower, second⟩ := Option.isSome_iff_exists.mp second
    exact ⟨upper, lower, first, second⟩
  · rintro ⟨upper, lower, first, second⟩
    exact ⟨high, low, rest, rfl, by simp [first], by simp [second]⟩

theorem standsFor_decodedBytes (text : List Char) : StandsFor text (decodedBytes text) := by
  fun_induction decodedBytes text with
  | case1 => exact .nil
  | case2 high low rest upper lower second first ih => exact .group first second ih
  | case3 high low rest noGroup ih =>
    refine .char (fun group => ?_) ih
    obtain ⟨upper, lower, first, second⟩ := beginsWithGroup_iff.mp group
    exact noGroup upper lower first second
  | case4 char rest short ih =>
    refine .char ?_ ih
    rintro ⟨high, low, others, same, _⟩
    cases same
    exact short high low others rfl rfl

theorem StandsFor.unique {text : List Char} {bytes others : List UInt8}
    (one : StandsFor text bytes) (other : StandsFor text others) : bytes = others := by
  induction one generalizing others with
  | nil => cases other; rfl
  | group first second _ ih =>
    cases other with
    | group first' second' rest =>
      rw [first] at first'
      rw [second] at second'
      cases first'
      cases second'
      rw [ih rest]
    | char single _ => exact absurd (beginsWithGroup_iff.mpr ⟨_, _, first, second⟩) single
  | char single _ ih =>
    cases other with
    | group first second _ => exact absurd (beginsWithGroup_iff.mpr ⟨_, _, first, second⟩) single
    | char _ rest => rw [ih rest]

/-- A text is decoded to the bytes that it stands for. -/
theorem standsFor_iff {text : List Char} {bytes : List UInt8} :
    StandsFor text bytes ↔ decodedBytes text = bytes :=
  ⟨(standsFor_decodedBytes text).unique, fun same => same ▸ standsFor_decodedBytes text⟩

theorem decode?_eq_some_iff {text decoded : List Char} :
    decode? text = some decoded ↔ Text.encodeUtf8 decoded = decodedBytes text := by
  rw [decode?, Text.decodeUtf8?_eq_some_iff, eq_comm]

/-- Only a percent sign before two digits is more than itself. -/
example : decode? "%2x%41+%".toList = some "%2xA+%".toList := by decide

/-! ## Coded texts -/

private theorem hexValue?_hexDigit :
    ∀ digit < 16, Json.hexValue? (hexDigit digit) = some digit := by
  decide

private theorem hexDigit_mem : ∀ digit < 16, hexDigit digit ∈ "0123456789ABCDEF".toList := by
  decide

private theorem isPlain_iff (byte : UInt8) : isPlain byte = true ↔
    (48 ≤ byte.toNat ∧ byte.toNat ≤ 57) ∨ (65 ≤ byte.toNat ∧ byte.toNat ≤ 90) ∨
      (97 ≤ byte.toNat ∧ byte.toNat ≤ 122) := by
  simp only [isPlain, Bool.or_eq_true, Bool.and_eq_true, decide_eq_true_eq, UInt8.le_iff_toNat_le,
    UInt8.reduceToNat, or_assoc]

private theorem plain_char : ∀ code < 123, (48 ≤ code ∧ code ≤ 57) ∨ (65 ≤ code ∧ code ≤ 90) ∨
    (97 ≤ code ∧ code ≤ 122) → (Char.ofNat code).isAlphanum = true ∧ Char.ofNat code ≠ '%' ∧
      Text.encodeChar (Char.ofNat code) = [UInt8.ofNat code] := by
  decide

section Byte

variable (byte : UInt8) {rest : List Char}

theorem isCoded_encodeByte (others : IsCoded rest) : IsCoded (encodeByte byte ++ rest) := by
  have small := byte.toNat_lt
  unfold encodeByte
  split
  next plain =>
    have code := (isPlain_iff byte).mp plain
    exact .plain (plain_char byte.toNat (by omega) code).1 others
  next => exact .group (hexDigit_mem _ (by omega)) (hexDigit_mem _ (by omega)) others

theorem standsFor_encodeByte {bytes : List UInt8} (others : StandsFor rest bytes) :
    StandsFor (encodeByte byte ++ rest) (byte :: bytes) := by
  have small := byte.toNat_lt
  unfold encodeByte
  split
  next plain =>
    have code := (isPlain_iff byte).mp plain
    obtain ⟨_, noSign, same⟩ := plain_char byte.toNat (by omega) code
    rw [UInt8.ofNat_toNat] at same
    have single : ¬ BeginsWithGroup (Char.ofNat byte.toNat :: rest) := by
      rintro ⟨_, _, _, group, _⟩
      exact noSign (List.cons.inj group).1
    have stands := StandsFor.char single others
    rwa [same] at stands
  next =>
    have stands := StandsFor.group (hexValue?_hexDigit (byte.toNat / 16) (by omega))
      (hexValue?_hexDigit (byte.toNat % 16) (by omega)) others
    have whole : byte.toNat / 16 * 16 + byte.toNat % 16 = byte.toNat := by omega
    rwa [whole, UInt8.ofNat_toNat] at stands

end Byte

theorem isCoded_encode (text : List Char) : IsCoded (encode text) := by
  unfold encode
  induction Text.encodeUtf8 text with
  | nil => exact .nil
  | cons byte rest ih => exact isCoded_encodeByte byte ih

/-- A coded text stands for the bytes of the text that was coded. -/
theorem standsFor_encode (text : List Char) : StandsFor (encode text) (Text.encodeUtf8 text) := by
  unfold encode
  induction Text.encodeUtf8 text with
  | nil => exact .nil
  | cons byte rest ih => exact standsFor_encodeByte byte ih

theorem decode?_encode (text : List Char) : decode? (encode text) = some text :=
  decode?_eq_some_iff.mpr (standsFor_iff.mp (standsFor_encode text)).symm

theorem encode_injective : Function.Injective encode := by
  intro text other same
  have back := decode?_encode text
  rw [same, decode?_encode] at back
  exact (Option.some.inj back).symm

end Url

namespace Script

/-! ## The library's functions -/

/-- What a function of the library that does not act gives for one text. -/
def textOutcome? (calls : Calls) (name content : String) : Option (Except Fault Value) :=
  (method? calls name (.text content) []).bind Routine.outcome?

variable (calls : Calls) (content : String)

theorem textOutcome?_encode :
    textOutcome? calls "url_encode" content =
      some (.ok (ofChars (Url.encode content.toList))) := rfl

theorem textOutcome?_decode :
    textOutcome? calls "url_decode" content = some (decodeUrl content) := by
  have outcome : textOutcome? calls "url_decode" content =
      some (((decodeUrl content).map fun value => (value, Value.text content)).map Prod.fst) := rfl
  rw [outcome]
  cases decodeUrl content <;> rfl

theorem decodeUrl_eq_ok_iff {content decoded : String} :
    decodeUrl content = .ok (.text decoded) ↔
      Text.encodeUtf8 decoded.toList = Url.decodedBytes content.toList := by
  rw [← Url.decode?_eq_some_iff, decodeUrl]
  cases Url.decode? content.toList with
  | none => simp
  | some text => simp [ofChars, String.ext_iff]

theorem decodeUrl_eq_error_iff {content : String} :
    decodeUrl content =
        .error (.raised ("url_decode received invalid UTF-8 in '" ++ content ++ "'")) ↔
      ¬ ∃ text, Text.encodeUtf8 text = Url.decodedBytes content.toList := by
  simp only [← Url.decode?_eq_some_iff, decodeUrl]
  cases Url.decode? content.toList <;> simp

/-- The library's two functions for URLs. Coding gives letters, digits and groups, no two texts are
coded alike, and decoding a coded text gives the text back. Decoding any text gives the text whose
bytes it stands for, and raises an error exactly if these bytes are no text. -/
theorem url_functions_inverse (calls : Calls) :
    (∀ content, ∃ coded, textOutcome? calls "url_encode" content = some (.ok (.text coded)) ∧
      Url.IsCoded coded.toList ∧
      textOutcome? calls "url_decode" coded = some (.ok (.text content))) ∧
    Function.Injective (textOutcome? calls "url_encode") ∧
    ∀ content, ∃ bytes, (∀ others, Url.StandsFor content.toList others ↔ others = bytes) ∧
      (∀ decoded, textOutcome? calls "url_decode" content = some (.ok (.text decoded)) ↔
        Text.encodeUtf8 decoded.toList = bytes) ∧
      (textOutcome? calls "url_decode" content =
          some (.error (.raised ("url_decode received invalid UTF-8 in '" ++ content ++ "'"))) ↔
        ¬ ∃ text, Text.encodeUtf8 text = bytes) := by
  refine ⟨fun content => ?_, fun content other same => ?_, fun content => ?_⟩
  · refine ⟨String.ofList (Url.encode content.toList), textOutcome?_encode calls content, ?_, ?_⟩
    · rw [String.toList_ofList]
      exact Url.isCoded_encode content.toList
    · have back : Text.encodeUtf8 content.toList = Url.decodedBytes (Url.encode content.toList) :=
        Url.decode?_eq_some_iff.mp (Url.decode?_encode content.toList)
      rw [textOutcome?_decode, Option.some_inj, decodeUrl_eq_ok_iff, String.toList_ofList, back]
  · have texts : String.ofList (Url.encode content.toList) =
        String.ofList (Url.encode other.toList) := by
      simpa [textOutcome?_encode, ofChars] using same
    have coded := congrArg String.toList texts
    rw [String.toList_ofList, String.toList_ofList] at coded
    exact String.toList_injective (Url.encode_injective coded)
  · refine ⟨Url.decodedBytes content.toList, fun others => ?_, fun decoded => ?_, ?_⟩
    · rw [Url.standsFor_iff, eq_comm]
    · rw [textOutcome?_decode, Option.some_inj, decodeUrl_eq_ok_iff]
    · rw [textOutcome?_decode, Option.some_inj, decodeUrl_eq_error_iff]

end Script

end Recast
