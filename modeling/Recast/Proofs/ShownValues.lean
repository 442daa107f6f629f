import Recast.Proofs.DecimalText
import Recast.Script.Value

set_option autoImplicit false

/-!
# Values in texts

A value in a text is written as in JSON, but for doubles, which have a layout of their own there,
and for arrays and maps that are known before evaluation, which are written as literals.
-/

namespace Recast

namespace Decimal

/-! ## Layouts of digits -/

theorem mem_dropTrailingZeros {digits : List Char} {digit : Char}
    (member : digit ∈ dropTrailingZeros digits) : digit ∈ digits := by
  rw [dropTrailingZeros, List.mem_reverse] at member
  exact List.mem_reverse.mp ((List.dropWhile_sublist _).subset member)

theorem isDigit_of_mem_shortest {number : Binary} {digit : Char}
    (member : digit ∈ number.shortest.digits) : digit.isDigit = true :=
  isDigit_of_mem_natText (mem_dropTrailingZeros member)

theorem point_mem_positional (number : Digits) : '.' ∈ number.positional := by
  unfold Digits.positional
  split
  next => simp
  next => simp

theorem mark_mem_scientific (number : Digits) (signed : Bool) : 'e' ∈ number.scientific signed := by
  simp [Digits.scientific]

/-- Only the scientific form has the mark of an exponent. -/
theorem mark_notMem_positional {number : Digits}
    (digits : ∀ digit ∈ number.digits, digit.isDigit = true) : 'e' ∉ number.positional := by
  have noMark : 'e' ∉ number.digits := fun member => absurd (digits 'e' member) (by decide)
  have noZeros : ∀ count, 'e' ∉ List.replicate count '0' := fun count member =>
    absurd (List.eq_of_mem_replicate member) (by decide)
  unfold Digits.positional
  split
  next => simp [noMark]
  next =>
    have noFront : ∀ count, 'e' ∉ number.digits.take count :=
      fun count member => noMark (List.mem_of_mem_take member)
    have noBack : ∀ count, 'e' ∉ number.digits.drop count :=
      fun count member => noMark (List.mem_of_mem_drop member)
    dsimp only
    split
    next => simp [noFront]
    next => simp [noFront, noBack]

/-- The sign of an exponent shows unless the exponent is negative. -/
theorem scientific_eq_iff (number : Digits) :
    number.scientific false = number.scientific true ↔ number.exponent < 0 := by
  by_cases negative : number.exponent < 0
  · simp [Digits.scientific, negative, Int.not_le.mpr negative]
  · simp [Digits.scientific, negative, Int.not_lt.mp negative]

end Decimal

namespace Script

open Decimal (isMidRange shapeOf)

/-! ## Doubles -/

/-- A text writes a double in scientific form if it is this large or this small. -/
def isFar (number : Float) : Bool :=
  number.abs > largestPositional || number.abs < smallestPositional

/-- Whether a text writes a double as JSON does. Both have to choose the same form, and only JSON
gives zero and a positive exponent their signs. -/
def doubleMatchesJson (number : Float) : Bool :=
  number.isFinite &&
    match shapeOf number with
    | .zero negative => !negative
    | .finite _ magnitude =>
      if isFar number then decide (magnitude.shortest.exponent < -5)
      else isMidRange magnitude.shortest.exponent
    | _ => false

theorem floatText_ne_nil (number : Float) : floatText number ≠ [] := by
  unfold floatText
  cases shapeOf number with
  | nan => simp
  | infinite negative => cases negative <;> simp
  | zero negative => simp
  | finite negative magnitude =>
    have scientific := List.ne_nil_of_mem (Decimal.mark_mem_scientific magnitude.shortest false)
    have positional := List.ne_nil_of_mem (Decimal.point_mem_positional magnitude.shortest)
    dsimp only
    split
    next => simp
    next =>
      split
      next => exact scientific
      next => exact positional

/-- The texts of a finite magnitude are the same if their forms are, and no exponent is signed. -/
theorem magnitudeText_eq_iff (far midRange : Bool) (number : Decimal.Binary) :
    (if far then number.shortest.scientific false else number.shortest.positional) =
      (if midRange then number.shortest.positional else number.shortest.scientific true) ↔
    if far then midRange = false ∧ number.shortest.exponent < 0 else midRange = true := by
  have noMark : 'e' ∉ number.shortest.positional :=
    Decimal.mark_notMem_positional fun _ => Decimal.isDigit_of_mem_shortest
  have mark := Decimal.mark_mem_scientific number.shortest
  cases far with
  | true =>
    cases midRange with
    | true =>
      have other : number.shortest.scientific false ≠ number.shortest.positional :=
        fun same => noMark (same ▸ mark false)
      simp [other]
    | false => simp [Decimal.scientific_eq_iff]
  | false =>
    cases midRange with
    | true => simp
    | false =>
      have other : number.shortest.positional ≠ number.shortest.scientific true :=
        fun same => noMark (same ▸ mark true)
      simp [other]

theorem floatText_eq_write_iff {number : Float} (finite : number.isFinite = true) :
    floatText number = Json.doubles.write number ↔ doubleMatchesJson number = true := by
  unfold floatText Decimal.Layout.write doubleMatchesJson
  rw [finite, Bool.true_and]
  cases shapeOf number with
  | nan => simp [Json.doubles]
  | infinite negative => cases negative <;> simp [Json.doubles]
  | zero negative => cases negative <;> simp
  | finite negative magnitude =>
    have same := magnitudeText_eq_iff (isFar number) (isMidRange magnitude.shortest.exponent)
      magnitude
    have signs : ∀ left right : List Char,
        ((if negative then '-' :: left else left) = if negative then '-' :: right else right) ↔
          left = right := by
      intro left right
      cases negative <;> simp
    refine (signs _ _).trans (same.trans ?_)
    cases isFar number with
    | true => simp [isMidRange]; omega
    | false => rfl

theorem printed_float_iff (number : Float) :
    (Value.float number).printed = (Value.float number).toJson.asText ↔
      doubleMatchesJson number = true := by
  cases finite : number.isFinite with
  | true =>
    have json : (Value.float number).toJson.asText = String.ofList (Json.doubles.write number) := by
      simp [Value.toJson, Value.toJson?, finite, Json.Value.asText, Json.Value.render,
        Json.Value.write]
    rw [json, Value.printed, String.ofList_inj]
    exact floatText_eq_write_iff finite
  | false =>
    have json : (Value.float number).toJson.asText = "" := by
      simp [Value.toJson, Value.toJson?, finite, Json.Value.asText]
    have filled : String.ofList (floatText number) ≠ "" := by
      simpa using floatText_ne_nil number
    simp [json, Value.printed, filled, doubleMatchesJson, finite]

/-! ## All values -/

/-- A value as part of a text. A `constant` is known when the text is compiled. -/
def Value.shown (constant : Bool) (value : Value) : String :=
  if constant then value.constantText else value.printed

/-- Whether a text shows a value as JSON does. -/
def Value.MatchesJson (constant : Bool) : Value → Prop
  | .float number => doubleMatchesJson number = true
  | .array items => constant = true →
      String.ofList (Value.array items).literal = (Value.array items).toJson.asText
  | .map entries => constant = true →
      String.ofList (Value.map entries).literal = (Value.map entries).toJson.asText
  | _ => True

/-- Only doubles and the arrays and maps of constants can be shown in another way than JSON. -/
theorem shown_eq_asText_iff (constant : Bool) (value : Value) :
    value.shown constant = value.toJson.asText ↔ value.MatchesJson constant := by
  cases value with
  | float number =>
    have same : (Value.float number).shown constant = (Value.float number).printed := by
      cases constant <;> rfl
    rw [same]
    exact printed_float_iff number
  | array items | map entries =>
    cases constant with
    | true => simp [Value.shown, Value.constantText, Value.MatchesJson]
    | false => exact iff_of_true rfl fun known => absurd known Bool.false_ne_true
  | bool flag => exact iff_of_true (by cases constant <;> cases flag <;> rfl) trivial
  | _ => exact iff_of_true (by cases constant <;> rfl) trivial

end Script

end Recast
