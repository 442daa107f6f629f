import Mathlib.Data.List.TakeWhile
import Mathlib.Tactic.SplitIfs
import Recast.Proofs.JsonGrammar

set_option autoImplicit false

/-!
# The grammar of JSON numbers

A number is read exactly if it is one and its value fits a double. It is an integer exactly if it is
written without a fraction and an exponent and fits 64 bits.
-/

namespace Recast.Json

/-! ## Judgements -/

/-- Digits at the front of a text, at least one. -/
structure Digits (input digits rest : List Char) : Prop where
  input_eq : input = digits ++ rest
  filled : digits ≠ []
  all : ∀ digit ∈ digits, digit.isDigit = true

/-- The parts of a number without its sign. The exponent says whether it is negative. -/
structure Numeral where
  whole : List Char
  fraction : Option (List Char)
  exponent : Option (Bool × List Char)

inductive Fraction : List Char → Option (List Char) → List Char → Prop where
  | absent (rest : List Char) : Fraction rest none rest
  | present {input digits rest : List Char} (found : Digits input digits rest) :
      Fraction ('.' :: input) (some digits) rest

/-- Digits with or without a sign, and whether they count down. -/
inductive Power : List Char → Bool × List Char → List Char → Prop where
  | unsigned {input digits rest : List Char} (found : Digits input digits rest) :
      Power input (false, digits) rest
  | positive {input digits rest : List Char} (found : Digits input digits rest) :
      Power ('+' :: input) (false, digits) rest
  | negative {input digits rest : List Char} (found : Digits input digits rest) :
      Power ('-' :: input) (true, digits) rest

inductive Exponent : List Char → Option (Bool × List Char) → List Char → Prop where
  | absent (rest : List Char) : Exponent rest none rest
  | present {mark : Char} {input rest : List Char} {power : Bool × List Char}
      (isMark : isExponentMark mark = true) (found : Power input power rest) :
      Exponent (mark :: input) (some power) rest

/-- A number without its sign. Only the number zero begins with a zero. -/
inductive Unsigned : List Char → Numeral → List Char → Prop where
  | parts {input middle last rest whole : List Char} {fraction : Option (List Char)}
      {exponent : Option (Bool × List Char)} (front : Digits input whole middle)
      (unpadded : ∀ digit others, whole ≠ '0' :: digit :: others)
      (after : Fraction middle fraction last) (scale : Exponent last exponent rest) :
      Unsigned input ⟨whole, fraction, exponent⟩ rest

/-! ## Reading -/

/-- The double of a significand, a power of ten and a written exponent, unless it is too large. -/
def scaledBy? (negative : Bool) (significand : Nat) (exponent : Int) :
    Option (Bool × List Char) → Option Float
  | none => (scaled negative significand exponent).toOption
  | some (down, digits) =>
    let size := Decimal.digitsValue digits
    if size ≤ maxExponent then
      (scaled negative significand (if down then exponent - size else exponent + size)).toOption
    else if significand != 0 && !down then none
    else some (if negative then -0.0 else 0.0)

namespace Numeral

/-- The number of a numeral with its sign: an integer if it is written without a fraction and an
exponent and fits 64 bits, else the double of its leading digits, unless it is too large. -/
def value? (negative : Bool) (numeral : Numeral) : Option Number :=
  let (significand, left) := absorb 0 numeral.whole
  match numeral.fraction, numeral.exponent with
  | none, none => (wholeNumber negative significand left).toOption
  | none, some power => (scaledBy? negative significand left (some power)).map .float
  | some digits, exponent =>
    let (total, beyond) := absorb significand digits
    (scaledBy? negative total (left - Int.ofNat (digits.length - beyond)) exponent).map .float

end Numeral

/-- No digit stands at the front of a text. -/
def NoDigit (rest : List Char) : Prop :=
  ∀ char ∈ rest.head?, char.isDigit = false

theorem Digits.split {input digits rest : List Char} (found : Digits input digits rest)
    (stops : NoDigit rest) :
    input.takeWhile Char.isDigit = digits ∧ input.dropWhile Char.isDigit = rest := by
  obtain ⟨rfl, _, all⟩ := found
  have none : rest.takeWhile Char.isDigit = [] ∧ rest.dropWhile Char.isDigit = rest := by
    cases rest with
    | nil => exact ⟨rfl, rfl⟩
    | cons char rest => simp [stops char rfl]
  rw [List.takeWhile_append_of_pos all, List.dropWhile_append_of_pos all, none.1, none.2]
  exact ⟨List.append_nil digits, rfl⟩

theorem digits_takeWhile {input : List Char} (filled : input.takeWhile Char.isDigit ≠ []) :
    Digits input (input.takeWhile Char.isDigit) (input.dropWhile Char.isDigit) :=
  ⟨(List.takeWhile_append_dropWhile).symm, filled, fun _ member => List.mem_takeWhile_imp member⟩

theorem Digits.length_lt {input digits rest : List Char} (found : Digits input digits rest) :
    rest.length < input.length := by
  obtain ⟨rfl, filled, _⟩ := found
  have positive := List.length_pos_iff.mpr filled
  rw [List.length_append]
  omega

theorem Fraction.length_le {input rest : List Char} {digits : Option (List Char)}
    (found : Fraction input digits rest) : rest.length ≤ input.length := by
  cases found with
  | absent => exact Nat.le_refl _
  | present found => exact Nat.le_succ_of_le (Nat.le_of_lt found.length_lt)

theorem Power.length_lt {input rest : List Char} {power : Bool × List Char}
    (found : Power input power rest) : rest.length < input.length := by
  cases found with
  | unsigned found => exact found.length_lt
  | positive found | negative found => exact Nat.lt_succ_of_lt found.length_lt

theorem Exponent.length_le {input rest : List Char} {power : Option (Bool × List Char)}
    (found : Exponent input power rest) : rest.length ≤ input.length := by
  cases found with
  | absent => exact Nat.le_refl _
  | present _ found => exact Nat.le_succ_of_le (Nat.le_of_lt found.length_lt)

theorem Digits.head {input digits rest : List Char} (found : Digits input digits rest) :
    ∃ digit others, input = digit :: others ∧ digit.isDigit = true := by
  obtain ⟨rfl, filled, all⟩ := found
  cases digits with
  | nil => exact absurd rfl filled
  | cons digit digits => exact ⟨digit, _, rfl, all digit List.mem_cons_self⟩

theorem noDigit_dropWhile (input : List Char) : NoDigit (input.dropWhile Char.isDigit) := by
  intro char first
  have front := List.head?_dropWhile_not Char.isDigit input
  rw [show (input.dropWhile Char.isDigit).head? = some char from first] at front
  exact front

/-- The sign of an exponent, and what follows it. -/
def signOf (input : List Char) : Bool × List Char :=
  match input with
  | '-' :: rest => (true, rest)
  | '+' :: rest => (false, rest)
  | _ => (false, input)

theorem power_iff {input digits rest : List Char} {down : Bool} :
    Power input (down, digits) rest ↔
      ∃ after, signOf input = (down, after) ∧ Digits after digits rest := by
  constructor
  · intro power
    cases power with
    | unsigned found =>
      obtain ⟨digit, others, rfl, isDigit⟩ := found.head
      have noMinus : digit ≠ '-' := ne_of_isDigit isDigit rfl
      have noPlus : digit ≠ '+' := ne_of_isDigit isDigit rfl
      exact ⟨_, by simp [signOf, noMinus, noPlus], found⟩
    | positive found => exact ⟨_, rfl, found⟩
    | negative found => exact ⟨_, rfl, found⟩
  · rintro ⟨after, sign, found⟩
    unfold signOf at sign
    split at sign <;> cases sign
    · exact .negative found
    · exact .positive found
    · exact .unsigned found

theorem scaled_eq (negative : Bool) (significand : Nat) (exponent : Int) :
    scaled negative significand exponent =
      match (scaled negative significand exponent).toOption with
      | some number => .ok number
      | none => .error .malformed := by
  unfold scaled
  dsimp only
  split_ifs <;> rfl

theorem readExponent_eq {negative down : Bool} {significand : Nat} {exponent : Int}
    {input after : List Char} (sign : signOf input = (down, after)) :
    readExponent negative significand exponent input =
      if after.takeWhile Char.isDigit = [] then
        .error (if after.isEmpty then .truncated else .malformed)
      else
        match scaledBy? negative significand exponent
          (some (down, after.takeWhile Char.isDigit)) with
        | some number => .ok (number, after.dropWhile Char.isDigit)
        | none => .error .malformed := by
  unfold readExponent
  split
  next down' after' found =>
  have same : (down', after') = (down, after) := found.symm.trans sign
  cases same
  have value : (after.takeWhile Char.isDigit).foldl
      (fun total digit => total * 10 + digitValue digit) 0 =
        Decimal.digitsValue (after.takeWhile Char.isDigit) := rfl
  simp only [value, scaledBy?, List.isEmpty_iff]
  split
  next => rfl
  next =>
    split
    next =>
      rw [scaled_eq]
      cases (scaled negative significand _).toOption <;> rfl
    next => split <;> rfl

theorem readExponent_eq_ok_iff {negative : Bool} {significand : Nat} {exponent : Int}
    {input rest : List Char} {number : Float} :
    readExponent negative significand exponent input = .ok (number, rest) ↔
      ∃ power, Power input power rest ∧ NoDigit rest ∧
        scaledBy? negative significand exponent (some power) = some number := by
  constructor
  · intro read
    rcases sign : signOf input with ⟨down, after⟩
    rw [readExponent_eq sign] at read
    split at read
    next => cases read
    next filled =>
      split at read
      next found value =>
        cases read
        exact ⟨_, power_iff.mpr ⟨after, sign, digits_takeWhile filled⟩, noDigit_dropWhile after,
          value⟩
      next => cases read
  · rintro ⟨⟨down, digits⟩, power, stops, value⟩
    obtain ⟨after, sign, found⟩ := power_iff.mp power
    obtain ⟨taken, left⟩ := found.split stops
    rw [readExponent_eq sign, taken, left, if_neg found.filled, value]

theorem exponent_of_finishDouble {negative : Bool} {significand : Nat} {exponent : Int}
    {input rest : List Char} {number : Float}
    (read : finishDouble negative significand exponent input = .ok (number, rest)) :
    ∃ power, Exponent input power rest ∧
      scaledBy? negative significand exponent power = some number := by
  have unscaled : (scaled negative significand exponent).map (fun number => (number, input)) =
      .ok (number, rest) → ∃ power, Exponent input power rest ∧
        scaledBy? negative significand exponent power = some number := by
    intro read
    obtain ⟨found, value, same⟩ := map_eq_ok_iff.mp read
    cases same
    exact ⟨none, .absent _, toOption_eq_some_iff.mpr value⟩
  unfold finishDouble at read
  split at read
  next mark after =>
    split at read
    next isMark =>
      obtain ⟨power, found, _, value⟩ := readExponent_eq_ok_iff.mp read
      exact ⟨some power, .present isMark found, value⟩
    next => exact unscaled read
  next => exact unscaled read

theorem Exponent.finishDouble_eq {negative : Bool} {significand : Nat} {exponent : Int}
    {input rest : List Char} {power : Option (Bool × List Char)} {number : Float}
    (found : Exponent input power rest) (stops : StopsNumber rest)
    (value : scaledBy? negative significand exponent power = some number) :
    finishDouble negative significand exponent input = .ok (number, rest) := by
  cases found with
  | absent =>
    have value := toOption_eq_some_iff.mp value
    cases input with
    | nil => simp [finishDouble, value, Except.map]
    | cons char rest => simp [finishDouble, (stops char rfl).2.2, value, Except.map]
  | present isMark found =>
    have noDigit : NoDigit rest := fun char first => (stops char first).1
    simp only [finishDouble, isMark, if_true]
    exact readExponent_eq_ok_iff.mpr ⟨_, found, noDigit, value⟩

theorem not_isDigit_of_isExponentMark {mark : Char} (isMark : isExponentMark mark = true) :
    mark.isDigit = false := by
  simp only [isExponentMark, Bool.or_eq_true, beq_iff_eq] at isMark
  obtain rfl | rfl := isMark <;> rfl

/-- Neither a digit nor a point stands where an exponent may follow. -/
theorem Exponent.stops {input rest : List Char} {power : Option (Bool × List Char)}
    (found : Exponent input power rest) (stops : StopsNumber rest) :
    NoDigit input ∧ input.head? ≠ some '.' := by
  cases found with
  | absent => exact ⟨fun char first => (stops char first).1, fun first => (stops _ first).2.1 rfl⟩
  | present isMark =>
    refine ⟨?_, ?_⟩
    · rintro char ⟨⟩
      exact not_isDigit_of_isExponentMark isMark
    · rintro ⟨⟩
      cases isMark

theorem fraction_of_readFraction {negative : Bool} {significand : Nat} {exponent : Int}
    {input rest : List Char} {number : Float}
    (read : readFraction negative significand exponent input = .ok (number, rest)) :
    ∃ digits middle power, Digits input digits middle ∧ Exponent middle power rest ∧
      scaledBy? negative (absorb significand digits).1
        (exponent - Int.ofNat (digits.length - (absorb significand digits).2)) power =
          some number := by
  unfold readFraction at read
  dsimp only at read
  split at read
  next => cases read
  next filled =>
    obtain ⟨power, found, value⟩ := exponent_of_finishDouble read
    exact ⟨_, _, power, digits_takeWhile (by simpa using filled), found, value⟩

theorem Digits.readFraction_eq {negative : Bool} {significand : Nat} {exponent : Int}
    {input digits middle rest : List Char} {power : Option (Bool × List Char)} {number : Float}
    (front : Digits input digits middle) (found : Exponent middle power rest)
    (stops : StopsNumber rest)
    (value : scaledBy? negative (absorb significand digits).1
      (exponent - Int.ofNat (digits.length - (absorb significand digits).2)) power = some number) :
    readFraction negative significand exponent input = .ok (number, rest) := by
  obtain ⟨taken, left⟩ := front.split (found.stops stops).1
  have filled : digits.isEmpty = false := by simpa using front.filled
  simp only [readFraction, taken, left, filled, Bool.false_eq_true, if_false]
  exact found.finishDouble_eq stops value

/-- What is read as a number is one, with the value that was read. -/
theorem unsigned_of_readNumber {negative : Bool} {input rest : List Char} {number : Number}
    (read : readNumber negative input = .ok (number, rest)) :
    ∃ numeral, Unsigned input numeral rest ∧ numeral.value? negative = some number := by
  have digits := @digits_takeWhile input
  unfold readNumber at read
  dsimp only at read
  split at read
  next => cases read
  next => cases read
  next filled unpadded =>
    have front := digits filled
    split at read
    next after beyond =>
      obtain ⟨⟨found, last⟩, fraction, same⟩ := map_eq_ok_iff.mp read
      cases same
      obtain ⟨decimals, middle, power, behind, scale, value⟩ := fraction_of_readFraction fraction
      exact ⟨⟨_, some decimals, power⟩, .parts (beyond ▸ front) unpadded (.present behind) scale,
        by simpa [Numeral.value?] using value⟩
    next mark after noPoint beyond =>
      split at read
      next isMark =>
        obtain ⟨⟨found, last⟩, exponent, same⟩ := map_eq_ok_iff.mp read
        cases same
        obtain ⟨power, scale, _, value⟩ := readExponent_eq_ok_iff.mp exponent
        exact ⟨⟨_, none, some power⟩,
          .parts (beyond ▸ front) unpadded (.absent _) (.present isMark scale),
          by simp [Numeral.value?, value]⟩
      next =>
        obtain ⟨found, value, same⟩ := map_eq_ok_iff.mp read
        cases same
        exact ⟨⟨_, none, none⟩, .parts (beyond ▸ front) unpadded (.absent _) (.absent _),
          toOption_eq_some_iff.mpr value⟩
    next beyond =>
      obtain ⟨found, value, same⟩ := map_eq_ok_iff.mp read
      cases same
      exact ⟨⟨_, none, none⟩, .parts (beyond ▸ front) unpadded (.absent _) (.absent _),
        toOption_eq_some_iff.mpr value⟩

theorem Fraction.noDigit {input rest : List Char} {digits : Option (List Char)}
    (found : Fraction input digits rest) (stops : NoDigit rest) : NoDigit input := by
  cases found with
  | absent => exact stops
  | present =>
    rintro char ⟨⟩
    rfl

/-- A number is read up to a text that adds nothing to it. -/
theorem Unsigned.readNumber_eq {negative : Bool} {input rest : List Char} {numeral : Numeral}
    {number : Number} (found : Unsigned input numeral rest) (stops : StopsNumber rest)
    (value : numeral.value? negative = some number) :
    readNumber negative input = .ok (number, rest) := by
  obtain ⟨front, unpadded, after, scale⟩ := found
  obtain ⟨noDigit, noPoint⟩ := scale.stops stops
  obtain ⟨taken, left⟩ := front.split (after.noDigit noDigit)
  unfold readNumber
  simp only [taken, left]
  split
  next => exact absurd rfl front.filled
  next => exact absurd rfl (unpadded _ _)
  next =>
    cases after with
    | present behind =>
      obtain ⟨double, scaled, rfl⟩ := Option.map_eq_some_iff.mp value
      exact congrArg (Except.map fun found => (Number.float found.1, found.2))
        (behind.readFraction_eq scale stops scaled)
    | absent =>
      cases scale with
      | present isMark power =>
        obtain ⟨double, scaled, rfl⟩ := Option.map_eq_some_iff.mp value
        have noDigit : NoDigit rest := fun char first => (stops char first).1
        have read := readExponent_eq_ok_iff.mpr ⟨_, power, noDigit, scaled⟩
        split
        next same => exact absurd (congrArg List.head? same) noPoint
        next same =>
          obtain ⟨rfl, rfl⟩ := List.cons.inj same
          rw [if_pos isMark, read]
          rfl
        next same => cases same
      | absent =>
        have whole := toOption_eq_some_iff.mp value
        split
        next => exact absurd rfl noPoint
        next char others _ =>
          rw [if_neg (by simp [(stops char rfl).2.2]), whole]
          rfl
        next =>
          rw [whole]
          rfl

/-! ## Integers -/

/-- Digits that are all taken in make up a number that fits 64 bits. -/
theorem foldl_eq_of_absorb {digits : List Char} {start : Nat} (fits : start ≤ maxUnsigned)
    (all : (absorb start digits).2 = 0) :
    digits.foldl (fun total digit => total * 10 + digitValue digit) start =
        (absorb start digits).1 ∧ (absorb start digits).1 ≤ maxUnsigned := by
  induction digits generalizing start with
  | nil => exact ⟨rfl, fits⟩
  | cons digit rest ih =>
    by_cases next : start * 10 + digitValue digit ≤ maxUnsigned
    · simp only [absorb, next, if_true] at all ⊢
      exact ih next all
    · simp [absorb, next] at all

theorem absorb_eq_iff {digits : List Char} {number : Nat} :
    absorb 0 digits = (number, 0) ↔
      Decimal.digitsValue digits = number ∧ number ≤ maxUnsigned := by
  constructor
  · intro absorbed
    have back := foldl_eq_of_absorb (Nat.zero_le maxUnsigned)
      (show (absorb 0 digits).2 = 0 by rw [absorbed])
    rwa [absorbed] at back
  · rintro ⟨rfl, fits⟩
    exact absorb_of_le fits

theorem wholeNumber_eq_int_iff {negative : Bool} {significand left : Nat} {number : Int} :
    wholeNumber negative significand left = .ok (.int number) ↔
      left = 0 ∧ if negative then 0 < significand ∧ significand ≤ maxSigned + 1 ∧
        number = -significand else number = significand := by
  unfold wholeNumber
  by_cases all : left = 0
  · cases negative with
    | false => simp [all, eq_comm]
    | true =>
      by_cases outside : significand = 0 ∨ maxSigned + 1 < significand
      · simp [all, outside]
        omega
      · simp [all, outside]
        omega
  · cases scaled negative significand left <;> simp [all, Except.map]

/-- A number is an integer exactly if it has neither a fraction nor an exponent and fits 64 bits.
Zero with a minus sign is none. -/
theorem Numeral.value?_eq_int_iff {negative : Bool} {numeral : Numeral} {number : Int} :
    numeral.value? negative = some (.int number) ↔
      numeral.fraction = none ∧ numeral.exponent = none ∧
        if negative then
          0 < Decimal.digitsValue numeral.whole ∧
            Decimal.digitsValue numeral.whole ≤ maxSigned + 1 ∧
            number = -Decimal.digitsValue numeral.whole
        else
          Decimal.digitsValue numeral.whole ≤ maxUnsigned ∧
            number = Decimal.digitsValue numeral.whole := by
  obtain ⟨whole, fraction, exponent⟩ := numeral
  cases fraction with
  | some digits => simp [value?]
  | none =>
    cases exponent with
    | some power => simp [value?]
    | none =>
      simp only [value?, toOption_eq_some_iff, wholeNumber_eq_int_iff, true_and]
      by_cases fits : Decimal.digitsValue whole ≤ maxUnsigned
      · rw [absorb_eq_iff.mpr ⟨rfl, fits⟩]
        cases negative <;> simp [fits]
      · have beyond : (absorb 0 whole).2 ≠ 0 := by
          intro all
          obtain ⟨value, small⟩ := absorb_eq_iff.mp (Prod.ext rfl all)
          exact fits (value ▸ small)
        have large : ¬ Decimal.digitsValue whole ≤ maxSigned + 1 := by
          simp only [maxSigned, maxUnsigned] at fits ⊢
          omega
        cases negative <;> simp [beyond, fits, large]

end Recast.Json
