set_option autoImplicit false

/-!
# Blank characters

The white space of Unicode, and trimming by it. Lines, configuration lists and template holes all
use this one class.
-/

namespace Recast.Text

def isBlank (char : Char) : Bool :=
  let code := char.toNat
  (9 ≤ code && code ≤ 13) || code == 0x20 || code == 0x85 || code == 0xA0 || code == 0x1680 ||
    (0x2000 ≤ code && code ≤ 0x200A) || code == 0x2028 || code == 0x2029 || code == 0x202F ||
    code == 0x205F || code == 0x3000

def trimLeft (text : List Char) : List Char :=
  text.dropWhile isBlank

def trimRight (text : List Char) : List Char :=
  (text.reverse.dropWhile isBlank).reverse

def trim (text : List Char) : List Char :=
  trimRight (trimLeft text)

def isAllBlank (text : List Char) : Bool :=
  text.all isBlank

theorem trimLeft_eq_nil_iff (text : List Char) :
    trimLeft text = [] ↔ ∀ char ∈ text, isBlank char = true := by
  induction text with
  | nil => simp [trimLeft]
  | cons char rest ih =>
    simp only [trimLeft] at ih
    cases blank : isBlank char <;> simp [trimLeft, blank, ih]

theorem trim_eq_nil_iff (text : List Char) :
    trim text = [] ↔ ∀ char ∈ text, isBlank char = true := by
  have again : trim text = [] ↔ ∀ char ∈ trimLeft text, isBlank char = true := by
    have back := trimLeft_eq_nil_iff (trimLeft text).reverse
    simp only [List.mem_reverse] at back
    rw [trim, trimRight, List.reverse_eq_nil_iff]
    exact back
  have front := List.head?_dropWhile_not isBlank text
  rw [again, ← trimLeft_eq_nil_iff text]
  cases left : trimLeft text with
  | nil => simp
  | cons char rest =>
    -- What is left begins with a character that is not blank.
    rw [show text.dropWhile isBlank = char :: rest from left] at front
    have shown : isBlank char = false := front
    simp [shown]

end Recast.Text
