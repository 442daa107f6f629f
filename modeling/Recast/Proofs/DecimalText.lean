import Recast.Decimal.Reader

set_option autoImplicit false

/-!
# Decimal digits of integers

An integer is written with digits after at most one minus sign, it can be read back, and no two
integers are written alike.
-/

namespace Recast.Decimal

theorem natText_ne_nil (number : Nat) : natText number ≠ [] :=
  Nat.toDigits_ne_nil

theorem isDigit_of_mem_natText {number : Nat} {digit : Char} (member : digit ∈ natText number) :
    digit.isDigit = true :=
  Nat.isDigit_of_mem_toDigits (by decide) (by decide) member

theorem digitsValue_natText (number : Nat) : digitsValue (natText number) = number := by
  have same : digitsValue (natText number) = Nat.ofDigitChars 10 (natText number) 0 := by
    unfold digitsValue Nat.ofDigitChars
    congr 1
    funext total digit
    rw [Nat.mul_comm]
  rw [same]
  exact Nat.ofDigitChars_ten_toDigits

theorem natText_injective {left right : Nat} (same : natText left = natText right) :
    left = right := by
  rw [← digitsValue_natText left, same, digitsValue_natText]

theorem natText_eq_cons (number : Nat) :
    ∃ digit rest, natText number = digit :: rest ∧ digit.isDigit = true := by
  cases written : natText number with
  | nil => exact absurd written (natText_ne_nil number)
  | cons digit rest =>
    exact ⟨digit, rest, rfl, isDigit_of_mem_natText (written ▸ List.mem_cons_self)⟩

theorem minus_notMem_natText (number : Nat) : '-' ∉ natText number := fun member =>
  absurd (isDigit_of_mem_natText member) (by decide)

theorem intText_injective {left right : Int} (same : intText left = intText right) :
    left = right := by
  cases left with
  | ofNat left =>
    cases right with
    | ofNat right => rw [natText_injective same]
    | negSucc right =>
      have digits : natText left = '-' :: natText (right + 1) := same
      exact absurd (digits ▸ List.mem_cons_self) (minus_notMem_natText left)
  | negSucc left =>
    cases right with
    | ofNat right =>
      have digits : '-' :: natText (left + 1) = natText right := same
      exact absurd (digits ▸ List.mem_cons_self) (minus_notMem_natText right)
    | negSucc right =>
      have size := natText_injective (List.cons.inj same).2
      rw [Nat.succ.inj size]

end Recast.Decimal
