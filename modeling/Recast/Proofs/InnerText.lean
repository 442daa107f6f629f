import Recast.Proofs.RawTexts

set_option autoImplicit false

/-!
# The text of a hole

The scan for the brace that closes a hole goes along with the numbers and the quoted texts of its
expression, and none of them goes on over that brace. So it does with a raw text, if that would be
balanced without its number signs.
-/

namespace Recast

namespace Template

/-! ## The text of a hole -/

/-- The raw text that begins behind a number sign, if one does, would be balanced as a quoted text,
as it is if it holds neither a quote nor a backslash. -/
def calmRaw (input : List Char) : Bool :=
  (Script.rawText? input).all fun found => isBalanced ('"' :: (found.1 ++ ['"']))

/-- No comment begins outside of quotes, and no raw text that is not balanced. -/
def plainOutside : Scan → List Char → Bool
  | _, [] => true
  | .escaped quote, _ :: rest => plainOutside (.quoted quote) rest
  | .quoted quote, char :: rest => plainOutside (Scan.within quote char) rest
  | .outside, char :: rest =>
    if isQuote char then plainOutside (.quoted char) rest
    else
      !(char == '/' && (rest.head? == some '/' || rest.head? == some '*')) &&
        (char != '#' || calmRaw rest) && plainOutside .outside rest

/-- Plain text without back-ticks that reaches up to the brace that closes a hole: `depth`
braces are open inside, and the scan stands where the text begins. -/
structure IsInner (depth : Nat) (scan : Scan) (text : List Char) : Prop where
  closed : closeFrom? depth scan (text ++ ['\x7d']) = some (text, [])
  plain : plainOutside scan text = true
  noTick : '\x60' ∉ text

variable {depth : Nat} {char quote : Char} {rest : List Char}

private theorem tail_of_map {found : Option (List Char × List Char)}
    (same : (found.map fun found => (char :: found.1, found.2)) = some (char :: rest, [])) :
    found = some (rest, []) := by
  obtain ⟨⟨inner, left⟩, rfl, same⟩ := Option.map_eq_some_iff.mp same
  cases same
  rfl

theorem IsInner.escaped (inner : IsInner depth (.escaped quote) (char :: rest)) :
    IsInner depth (.quoted quote) rest :=
  ⟨tail_of_map inner.closed, inner.plain, List.not_mem_of_not_mem_cons inner.noTick⟩

theorem IsInner.within (inner : IsInner depth (.quoted quote) (char :: rest)) :
    IsInner depth (Scan.within quote char) rest :=
  ⟨tail_of_map inner.closed, inner.plain, List.not_mem_of_not_mem_cons inner.noTick⟩

theorem IsInner.quoted (inner : IsInner depth .outside (char :: rest))
    (quotes : isQuote char = true) : IsInner depth (.quoted char) rest := by
  obtain ⟨closed, plain, noTick⟩ := inner
  simp only [List.cons_append, closeFrom?, quotes, if_true] at closed
  rw [plainOutside, if_pos quotes] at plain
  exact ⟨tail_of_map closed, plain, List.not_mem_of_not_mem_cons noTick⟩

theorem IsInner.outside (inner : IsInner depth .outside (char :: rest))
    (calm : staysOutside char = true) : IsInner depth .outside rest := by
  obtain ⟨closed, plain, noTick⟩ := inner
  simp only [staysOutside, Bool.and_eq_true, Bool.not_eq_true', bne_iff_ne] at calm
  obtain ⟨⟨noQuote, noOpening⟩, noClosing⟩ := calm
  simp only [List.cons_append, closeFrom?, noQuote, noOpening, noClosing, Bool.false_eq_true,
    if_false] at closed
  rw [plainOutside, noQuote, if_neg Bool.false_ne_true, Bool.and_eq_true] at plain
  exact ⟨tail_of_map closed, plain.2, List.not_mem_of_not_mem_cons noTick⟩

theorem IsInner.opening (inner : IsInner depth .outside ('\x7b' :: rest)) :
    IsInner (depth + 1) .outside rest :=
  ⟨tail_of_map inner.closed, inner.plain, List.not_mem_of_not_mem_cons inner.noTick⟩

theorem IsInner.closing (inner : IsInner depth .outside ('\x7d' :: rest)) :
    ∃ outer, depth = outer + 1 ∧ IsInner outer .outside rest := by
  cases depth with
  | zero => cases inner.closed
  | succ outer =>
    exact ⟨outer, rfl, tail_of_map inner.closed, inner.plain,
      List.not_mem_of_not_mem_cons inner.noTick⟩

theorem IsInner.depth_eq (inner : IsInner depth .outside []) : depth = 0 := by
  cases depth with
  | zero => rfl
  | succ outer => cases inner.closed

theorem IsInner.no_comment (inner : IsInner depth .outside ('/' :: rest)) :
    rest.head? ≠ some '/' ∧ rest.head? ≠ some '*' := by
  have free := inner.plain
  rw [plainOutside, if_neg (by decide)] at free
  simp only [Bool.and_eq_true, Bool.not_eq_true', beq_self_eq_true, Bool.true_and,
    Bool.or_eq_false_iff, beq_eq_false_iff_ne] at free
  exact free.1.1

theorem IsInner.calmRaw (inner : IsInner depth .outside ('#' :: rest)) :
    Template.calmRaw rest = true := by
  have free := inner.plain
  rw [plainOutside, if_neg (by decide)] at free
  simp only [Bool.and_eq_true, bne_self_eq_false, Bool.false_or] at free
  exact free.1.2

/-- A chunk of text leads the scan from one state to another. -/
def Leads (depth : Nat) (scan : Scan) (chunk : List Char) (deeper : Nat) (onward : Scan) : Prop :=
  ∀ more, closeFrom? depth scan (chunk ++ more) =
    (closeFrom? deeper onward more).map fun found => (chunk ++ found.1, found.2)

theorem Leads.refl (depth : Nat) (scan : Scan) : Leads depth scan [] depth scan := by
  intro more
  simp

theorem Leads.single {scan onward : Scan} {deeper : Nat}
    (advances : Advances depth scan char deeper onward) :
    Leads depth scan [char] deeper onward :=
  advances.reads

theorem Leads.trans {scan middle onward : Scan} {between deeper : Nat} {chunk others : List Char}
    (first : Leads depth scan chunk between middle)
    (second : Leads between middle others deeper onward) :
    Leads depth scan (chunk ++ others) deeper onward := by
  intro more
  rw [List.append_assoc, first, second, Option.map_map]
  simp [Function.comp_def]

theorem leads_of_balanced {chunk : List Char} (balanced : Balanced chunk) (depth : Nat) :
    Leads depth .outside chunk depth .outside :=
  closeFrom?_balanced balanced depth

/-- Text around a hole opens no hole itself and has no carriage return. -/
structure IsAround (text : List Char) : Prop where
  opensNone : ¬ ['$', '\x7b'] <:+: text
  returnsNone : '\r' ∉ text

/-- A template of one hole with text around it. -/
def around (front inner text : List Char) : List Char :=
  front ++ '$' :: '\x7b' :: (inner ++ '\x7d' :: text)

/-- Some plain characters lead from one text to another. -/
def Passes (text rest : List Char) : Prop :=
  ∃ chunk, text = chunk ++ rest ∧ ∀ char ∈ chunk, staysOutside char = true

theorem Passes.refl (text : List Char) : Passes text text :=
  ⟨[], rfl, fun _ member => absurd member List.not_mem_nil⟩

theorem Passes.cons (calm : staysOutside char = true) {text : List Char}
    (passes : Passes text rest) : Passes (char :: text) rest := by
  obtain ⟨chunk, rfl, others⟩ := passes
  exact ⟨char :: chunk, rfl, List.forall_mem_cons.mpr ⟨calm, others⟩⟩

theorem Passes.trans {text middle : List Char} (first : Passes text middle)
    (second : Passes middle rest) : Passes text rest := by
  obtain ⟨front, rfl, calm⟩ := first
  obtain ⟨chunk, rfl, others⟩ := second
  exact ⟨front ++ chunk, (List.append_assoc _ _ _).symm, List.forall_mem_append.mpr ⟨calm, others⟩⟩

theorem Passes.inner {text : List Char} (passes : Passes text rest)
    (inner : IsInner depth .outside text) : IsInner depth .outside rest := by
  obtain ⟨chunk, rfl, calm⟩ := passes
  induction chunk with
  | nil => exact inner
  | cons char chunk ih =>
    obtain ⟨first, others⟩ := List.forall_mem_cons.mp calm
    exact ih others (inner.outside first)

theorem IsInner.quotedChunk {chunk : List Char}
    (inner : IsInner depth (.quoted quote) (chunk ++ rest))
    (calm : ∀ char ∈ chunk, char ≠ '\\' ∧ char ≠ quote) : IsInner depth (.quoted quote) rest := by
  induction chunk with
  | nil => exact inner
  | cons char chunk ih =>
    obtain ⟨⟨noEscape, noQuote⟩, others⟩ := List.forall_mem_cons.mp calm
    have next := inner.within
    rw [Scan.within, if_neg (by simp [noEscape]), if_neg noQuote] at next
    exact ih next others

theorem plainOutside_quotedText {text : List Char} (known : quote ∈ ['"', '\'', '\x60'])
    (within : QuotedText quote text)
    (plain : plainOutside (.quoted quote) (text ++ quote :: rest) = true) :
    plainOutside .outside rest = true := by
  induction within with
  | nil =>
    rw [List.nil_append, plainOutside, Scan.within_self known] at plain
    exact plain
  | plain other unescaped _ ih =>
    rw [List.cons_append, plainOutside, Scan.within_plain other unescaped] at plain
    exact ih plain
  | hidden noTick _ ih =>
    rw [List.cons_append, List.cons_append, plainOutside, Scan.within_hidden noTick,
      plainOutside] at plain
    exact ih plain

/-- Behind balanced text the scan stands outside again. -/
theorem plainOutside_balanced {chunk : List Char} (balanced : Balanced chunk)
    (plain : plainOutside .outside (chunk ++ rest) = true) :
    plainOutside .outside rest = true := by
  have next : ∀ {char : Char} {text : List Char}, isQuote char = false →
      plainOutside .outside (char :: text) = true → plainOutside .outside text = true := by
    intro char text noQuote plain
    rw [plainOutside, noQuote, if_neg Bool.false_ne_true, Bool.and_eq_true] at plain
    exact plain.2
  induction balanced generalizing rest with
  | nil => exact plain
  | @plain char _ calm _ ih =>
    have noQuote : isQuote char = false := by
      rw [Bool.eq_false_iff, ne_eq, isQuote_iff]
      exact fun quotes => calm (by simp_all)
    exact ih (next noQuote plain)
  | quoted known within _ ih =>
    rw [List.cons_append, plainOutside, if_pos (isQuote_iff.mpr known), List.append_assoc,
      List.cons_append] at plain
    exact ih (plainOutside_quotedText known within plain)
  | braces _ _ innerIH restIH =>
    rw [List.cons_append, List.append_assoc, List.cons_append] at plain
    exact restIH (next rfl (innerIH (next rfl plain)))

theorem IsInner.balanced {chunk : List Char} (balanced : Balanced chunk)
    (inner : IsInner depth .outside (chunk ++ rest)) : IsInner depth .outside rest := by
  have closed := inner.closed
  rw [List.append_assoc, closeFrom?_balanced balanced] at closed
  obtain ⟨⟨found, left⟩, later, same⟩ := Option.map_eq_some_iff.mp closed
  obtain ⟨whole, rfl⟩ := Prod.mk.inj same
  obtain rfl := List.append_cancel_left whole
  exact ⟨later, plainOutside_balanced balanced inner.plain,
    fun tick => inner.noTick (List.mem_append_right _ tick)⟩

end Template

namespace Script

open Template

variable {more : List Char}

/-! ## Numbers -/

theorem takeDigits_before (isDigit : Char → Bool) (noDigit : isDigit '\x7d' = false)
    (input more : List Char) :
    takeDigits isDigit (input ++ '\x7d' :: more) =
      ((takeDigits isDigit input).1, (takeDigits isDigit input).2 ++ '\x7d' :: more) := by
  induction input with
  | nil => simp [takeDigits, noDigit]
  | cons char rest ih =>
    rw [List.cons_append, takeDigits, takeDigits, ih]
    split
    next => rfl
    next =>
      split
      next => rfl
      next => rfl

theorem passes_takeDigits {isDigit : Char → Bool}
    (calm : ∀ char, isDigit char = true → staysOutside char = true) (input : List Char) :
    Passes input (takeDigits isDigit input).2 := by
  induction input with
  | nil => exact .refl []
  | cons char rest ih =>
    rw [takeDigits]
    split
    next underscore =>
      rw [beq_iff_eq] at underscore
      subst underscore
      exact ih.cons (by decide)
    next =>
      split
      next digit => exact ih.cons (calm char digit)
      next => exact .refl _

theorem staysOutside_of_isDigit (char : Char) (digit : char.isDigit = true) :
    staysOutside char = true :=
  staysOutside_of rfl digit

theorem lexFraction_before {input : List Char} (noStop : input ≠ ['.']) (more : List Char) :
    lexFraction (input ++ '\x7d' :: more) =
      ((lexFraction input).1, (lexFraction input).2 ++ '\x7d' :: more) := by
  cases input with
  | nil => rfl
  | cons first rest =>
    by_cases point : first = '.'
    · subst point
      cases rest with
      | nil => exact absurd rfl noStop
      | cons next rest =>
        have digits := takeDigits_before Char.isDigit (by decide) (next :: rest) more
        rw [List.cons_append] at digits
        rw [List.cons_append, List.cons_append, lexFraction, lexFraction, digits]
        split
        next => rfl
        next =>
          split
          next => rfl
          next => rfl
    · have whole : ∀ rest, lexFraction (first :: rest) = (none, first :: rest) := by
        intro rest
        unfold lexFraction
        split
        next same => exact absurd (List.cons.inj same).1 point
        next => rfl
      rw [List.cons_append, whole, whole]
      rfl

theorem passes_lexFraction (input : List Char) : Passes input (lexFraction input).2 := by
  unfold lexFraction
  split
  next next rest =>
    split
    next => exact (passes_takeDigits staysOutside_of_isDigit _).cons (by decide)
    next =>
      split
      next => exact .refl _
      next => exact (Passes.refl _).cons (by decide)
  next => exact .refl _

theorem lexExponent_before (input more : List Char) :
    lexExponent (input ++ '\x7d' :: more) =
      ((lexExponent input).1, (lexExponent input).2 ++ '\x7d' :: more) := by
  cases input with
  | nil => rfl
  | cons first rest =>
    by_cases mark : first = 'e'
    · subst mark
      cases rest with
      | nil => rfl
      | cons next rest =>
        have digits := takeDigits_before Char.isDigit (by decide)
        have whole := digits (next :: rest) more
        rw [List.cons_append] at whole
        rw [List.cons_append, List.cons_append, lexExponent, lexExponent, whole,
          digits rest more]
        split
        next => rfl
        next =>
          split
          next => rfl
          next => rfl
    · have whole : ∀ rest, lexExponent (first :: rest) = (none, first :: rest) := by
        intro rest
        unfold lexExponent
        split
        next same => exact absurd (List.cons.inj same).1 mark
        next => rfl
      rw [List.cons_append, whole, whole]
      rfl

theorem passes_lexExponent (input : List Char) : Passes input (lexExponent input).2 := by
  have digits := passes_takeDigits staysOutside_of_isDigit
  unfold lexExponent
  split
  next next rest =>
    split
    next => exact (digits _).cons (by decide)
    next =>
      split
      next sign =>
        have calm : staysOutside next = true := by
          rw [Bool.or_eq_true, beq_iff_eq, beq_iff_eq] at sign
          rcases sign with rfl | rfl <;> decide
        exact ((digits rest).cons calm).cons (by decide)
      next => exact .refl _
  next => exact .refl _

/-- What a reader of a token finds it finds before the end of a hole, unless it stops at a full
stop there. -/
def FindsBefore (reader : List Char → Option (Token × List Char)) : Prop :=
  ∀ input token rest, reader input = some (token, rest) → rest ≠ ['.'] →
    ∀ more, reader (input ++ '\x7d' :: more) = some (token, rest ++ '\x7d' :: more)

/-- The token of a decimal number of which all parts have been read. -/
def decimalToken? (negative : Bool) (whole : List Char) (fraction exponent : Option (List Char))
    (again : Bool) : Option Token :=
  let sign := if negative then ['-'] else []
  let number := Int.ofNat (Decimal.digitsValue whole)
  let signed := if negative then -number else number
  if fraction.isSome && again then none
  else if fraction.isNone && exponent.isNone && isInt signed then some (.int signed)
  else
    (Decimal.double? (sign ++ whole ++ (fraction.elim [] ('.' :: ·)) ++
      exponent.elim [] ('e' :: ·))).map .float

theorem lexDecimal_eq (negative : Bool) (input : List Char) :
    lexDecimal negative input =
      let digits := takeDigits Char.isDigit input
      let fraction := lexFraction digits.2
      let exponent := lexExponent fraction.2
      (decimalToken? negative digits.1 fraction.1 exponent.1 (lexFraction exponent.2).1.isSome).map
        (·, exponent.2) := by
  dsimp only
  unfold lexDecimal decimalToken?
  dsimp only
  rw [apply_ite (Option.map _), apply_ite (Option.map _), Option.map_map]
  rfl

/-- A decimal number ends before the end of a hole, unless it stops at a full stop there. -/
theorem lexDecimal_append (negative : Bool) {input : List Char}
    (noPoint : (takeDigits Char.isDigit input).2 ≠ ['.'])
    (noStop : (lexExponent (lexFraction (takeDigits Char.isDigit input).2).2).2 ≠ ['.'])
    (more : List Char) : lexDecimal negative (input ++ '\x7d' :: more) =
      (lexDecimal negative input).map fun found => (found.1, found.2 ++ '\x7d' :: more) := by
  have digits := takeDigits_before Char.isDigit (by decide) input
  simp only [lexDecimal_eq, digits, lexFraction_before noPoint, lexExponent_before,
    lexFraction_before noStop, Option.map_map]
  rfl

theorem lexDecimal_before (negative : Bool) : FindsBefore (lexDecimal negative) := by
  intro input token rest read noStop more
  have left := read
  rw [lexDecimal_eq] at left
  obtain ⟨_, _, same⟩ := Option.map_eq_some_iff.mp left
  cases same
  have noPoint : (takeDigits Char.isDigit input).2 ≠ ['.'] :=
    fun point => noStop (by rw [point]; rfl)
  rw [lexDecimal_append negative noPoint noStop, read]
  rfl

def isBaseDigit (base : Nat) (char : Char) : Bool :=
  match Json.hexValue? char with
  | some value => value < base
  | none => false

theorem lexBase_eq (base : Nat) (negative : Bool) (input : List Char) :
    lexBase base negative input =
      let digits := takeDigits (isBaseDigit base) input
      let number := wrapInt (baseValue base digits.1)
      if digits.1.isEmpty || Json.maxUnsigned < baseValue base digits.1 then none
      else some (.int (if negative && isInt (-number) then -number else number), digits.2) := rfl

theorem staysOutside_of_isBaseDigit {base : Nat} (char : Char)
    (digit : isBaseDigit base char = true) : staysOutside char = true :=
  @staysOutside_of (isBaseDigit base) (by simp [isBaseDigit, Json.hexValue?]) char digit

theorem passes_lexBase {base : Nat} {negative : Bool} {input rest : List Char} {token : Token}
    (read : lexBase base negative input = some (token, rest)) : Passes input rest := by
  rw [lexBase_eq] at read
  dsimp only at read
  split at read
  next => cases read
  next =>
    cases read
    exact passes_takeDigits (@staysOutside_of_isBaseDigit base) input

theorem lexBase_append (base : Nat) (negative : Bool) (input more : List Char) :
    lexBase base negative (input ++ '\x7d' :: more) =
      (lexBase base negative input).map fun found => (found.1, found.2 ++ '\x7d' :: more) := by
  simp only [lexBase_eq, takeDigits_before (isBaseDigit base) rfl input]
  rw [apply_ite (Option.map _)]
  rfl

theorem isAlpha_of_baseMark? {mark : Char} {base : Nat} (known : baseMark? mark = some base) :
    mark.isAlpha = true := by
  unfold baseMark? at known
  split at known
  all_goals first | rfl | cases known

/-- A number without the mark of a base is decimal. -/
theorem lexNumber_decimal {negative : Bool} {input : List Char}
    (unmarked : ∀ mark rest, input = '0' :: mark :: rest → baseMark? mark = none) :
    lexNumber negative input = lexDecimal negative input := by
  unfold lexNumber
  split
  next mark rest => rw [unmarked mark rest rfl]
  next => rfl

/-- A number has the mark of a base or is decimal, and decimal numbers stay decimal before the end
of a hole. -/
theorem lexNumber_cases (negative : Bool) (input : List Char) :
    (lexNumber negative input = lexDecimal negative input ∧ ∀ more,
        lexNumber negative (input ++ '\x7d' :: more) =
          lexDecimal negative (input ++ '\x7d' :: more)) ∨
      ∃ mark left base, input = '0' :: mark :: left ∧ staysOutside mark = true ∧
        ∀ left, lexNumber negative ('0' :: mark :: left) = lexBase base negative left := by
  by_cases marked : ∃ mark left base, input = '0' :: mark :: left ∧ baseMark? mark = some base
  case neg =>
    have unmarked : ∀ mark left, input = '0' :: mark :: left → baseMark? mark = none :=
      fun mark left same => Option.eq_none_iff_forall_ne_some.mpr fun base known =>
        marked ⟨mark, left, base, same, known⟩
    refine .inl ⟨lexNumber_decimal unmarked, fun more => lexNumber_decimal ?_⟩
    intro mark left same
    match input, unmarked with
    | [], _ => cases same
    | [_], _ => cases same; rfl
    | _ :: _ :: _, unmarked => cases same; exact unmarked _ _ rfl
  case pos =>
    obtain ⟨mark, left, base, rfl, known⟩ := marked
    have letter : isNamePart mark = true := by
      rw [isNamePart, Char.isAlphanum, isAlpha_of_baseMark? known]
      rfl
    refine .inr ⟨mark, left, base, rfl, staysOutside_of_isNamePart letter, fun left => ?_⟩
    rw [lexNumber, known]

theorem takeDigits_cons {isDigit : Char → Bool} {char : Char} (digit : isDigit char = true)
    (rest : List Char) : (takeDigits isDigit (char :: rest)).2 = (takeDigits isDigit rest).2 := by
  rw [takeDigits, if_pos digit]
  split <;> rfl

/-- Behind its first digit a number goes on with plain characters. -/
theorem passes_lexNumber {negative : Bool} {char : Char} {rest left : List Char} {token : Token}
    (digit : char.isDigit = true) (read : lexNumber negative (char :: rest) = some (token, left)) :
    Passes rest left := by
  obtain ⟨decimal, _⟩ | ⟨mark, left, base, same, calm, based⟩ :=
    lexNumber_cases negative (char :: rest)
  · rw [decimal, lexDecimal_eq] at read
    obtain ⟨_, _, same⟩ := Option.map_eq_some_iff.mp read
    cases same
    rw [takeDigits_cons digit]
    exact (passes_takeDigits staysOutside_of_isDigit rest).trans
      ((passes_lexFraction _).trans (passes_lexExponent _))
  · cases same
    rw [based] at read
    exact (passes_lexBase read).cons calm

theorem lexNumber_before (negative : Bool) : FindsBefore (lexNumber negative) := by
  intro input token rest read noStop more
  obtain ⟨decimal, decimalBefore⟩ | ⟨mark, left, base, rfl, _, based⟩ :=
    lexNumber_cases negative input
  · rw [decimal] at read
    rw [decimalBefore]
    exact lexDecimal_before negative input token rest read noStop more
  · rw [based] at read
    rw [List.cons_append, List.cons_append, based, lexBase_append, read]
    rfl

theorem ne_stop_of_passes {input left : List Char} (ends : input.getLast? ≠ some '.')
    (passes : Passes input left) : left ≠ ['.'] := by
  rintro rfl
  obtain ⟨chunk, rfl, _⟩ := passes
  exact ends List.getLast?_concat

/-- A number is read alike alone and before the end of a hole, if no full stop stands there. -/
theorem lexNumber_append (negative : Bool) {input : List Char} (ends : input.getLast? ≠ some '.')
    (more : List Char) : lexNumber negative (input ++ '\x7d' :: more) =
      (lexNumber negative input).map fun found => (found.1, found.2 ++ '\x7d' :: more) := by
  obtain ⟨decimal, decimalBefore⟩ | ⟨mark, left, base, rfl, _, based⟩ :=
    lexNumber_cases negative input
  · have digits := passes_takeDigits staysOutside_of_isDigit input
    rw [decimal, decimalBefore]
    refine lexDecimal_append negative (ne_stop_of_passes ends digits)
      (ne_stop_of_passes ends ?_) more
    exact digits.trans ((passes_lexFraction _).trans (passes_lexExponent _))
  · rw [List.cons_append, List.cons_append, based, based, lexBase_append]

/-! ## Texts and characters -/

/-- What follows begins with a blank only if what followed before begins with it. -/
def Continues (rest other : List Char) : Prop :=
  ∀ char, other.head? = some char → Text.isBlank char = true → rest.head? = some char

/-- One step through a quoted text: a piece of it adds `letters` to its content, whatever goes on
behind it like `rest`. -/
structure QuoteStep (quote : Char) (piece letters rest : List Char) : Prop where
  filled : piece ≠ []
  inner : ∀ depth, IsInner depth (.quoted quote) (piece ++ rest) →
    IsInner depth (.quoted quote) rest
  leads : ∀ depth, Leads depth (.quoted quote) piece depth (.quoted quote)
  reads : ∀ fuel other, Continues rest other → lexQuoted quote (fuel + 1) (piece ++ other) =
    (lexQuoted quote fuel other).map fun found => (letters ++ found.1, found.2)

theorem isInner_escape {depth : Nat} {quote letter : Char} {rest : List Char}
    (noTick : quote ≠ '\x60')
    (inner : IsInner depth (.quoted quote) ('\\' :: letter :: rest)) :
    IsInner depth (.quoted quote) rest := by
  have next := inner.within
  rw [Scan.within_hidden noTick] at next
  exact next.escaped

theorem leads_escape {quote : Char} (noTick : quote ≠ '\x60') (depth : Nat) (letter : Char) :
    Leads depth (.quoted quote) ['\\', letter] depth (.quoted quote) := by
  have hidden := advances_within depth quote '\\'
  rw [Scan.within_hidden noTick] at hidden
  exact (Leads.single hidden).trans (.single (advances_escaped depth quote letter))

theorem leads_quotedChunk {quote : Char} {chunk : List Char}
    (calm : ∀ char ∈ chunk, char ≠ '\\' ∧ char ≠ quote) (depth : Nat) :
    Leads depth (.quoted quote) chunk depth (.quoted quote) := by
  induction chunk with
  | nil => exact .refl depth (.quoted quote)
  | cons char chunk ih =>
    obtain ⟨⟨noEscape, noQuote⟩, others⟩ := List.forall_mem_cons.mp calm
    have first := advances_within depth quote char
    rw [Scan.within_plain noQuote fun escape => absurd escape noEscape] at first
    exact (Leads.single first).trans (ih others)

theorem lexCode_eq {count : Nat} {input rest : List Char} {letter : Char}
    (read : lexCode count input = some (letter, rest)) :
    ∃ digits, input = digits ++ rest ∧ (∀ digit ∈ digits, (Json.hexValue? digit).isSome) ∧
      ∀ more, lexCode count (digits ++ more) = some (letter, more) := by
  have known := read
  unfold lexCode at known
  dsimp only at known
  split at known
  next => cases known
  next valid =>
    simp only [Bool.or_eq_true, decide_eq_true_eq, Bool.not_eq_true', not_or, Nat.not_lt,
      Bool.not_eq_false, List.length_take, Nat.le_min] at valid
    obtain ⟨⟨_, long⟩, digits⟩ := valid
    split at known
    next range =>
      cases known
      refine ⟨input.take count, (List.take_append_drop count input).symm,
        List.all_eq_true.mp digits, fun more => ?_⟩
      have taken : (input.take count ++ more).take count = input.take count := by
        rw [List.take_append_of_le_length (by simp [long]), List.take_take, Nat.min_self]
      have left : (input.take count ++ more).drop count = more := by
        rw [List.drop_append_of_le_length (by simp [long]), List.drop_take]
        simp
      unfold lexCode
      dsimp only
      rw [taken, left, digits, if_neg (by simp [long]), if_pos range]
    next => cases known

section

variable {quote : Char}

theorem quoteStep_escape (noTick : quote ≠ '\x60') {mark letter : Char}
    (escapes : ∀ fuel rest, lexQuoted quote (fuel + 1) ('\\' :: mark :: rest) =
      (lexQuoted quote fuel rest).map fun found => (letter :: found.1, found.2))
    (rest : List Char) : QuoteStep quote ['\\', mark] [letter] rest where
  filled := List.cons_ne_nil _ _
  inner _ := isInner_escape noTick
  leads depth := leads_escape noTick depth mark
  reads fuel other _ := escapes fuel other

theorem quoteStep_code (quotes : isQuote quote = true) (noTick : quote ≠ '\x60')
    {mark letter : Char} {count : Nat}
    (escapes : ∀ fuel rest, lexQuoted quote (fuel + 1) ('\\' :: mark :: rest) =
      (lexCode count rest).bind fun code =>
        (lexQuoted quote fuel code.2).map fun found => (code.1 :: found.1, found.2))
    {input rest : List Char} (read : lexCode count input = some (letter, rest)) :
    ∃ digits, input = digits ++ rest ∧ QuoteStep quote ('\\' :: mark :: digits) [letter] rest := by
  obtain ⟨digits, rfl, hexadecimal, same⟩ := lexCode_eq read
  have calm : ∀ digit ∈ digits, digit ≠ '\\' ∧ digit ≠ quote := by
    intro digit member
    have known := hexadecimal digit member
    refine ⟨?_, ?_⟩ <;> rintro rfl
    · cases known
    · simp only [isQuote, Bool.or_eq_true, beq_iff_eq] at quotes
      rcases quotes with (rfl | rfl) | rfl <;> cases known
  refine ⟨digits, rfl, List.cons_ne_nil _ _, fun depth inner => ?_, fun depth => ?_,
    fun fuel other _ => ?_⟩
  · exact (isInner_escape noTick inner).quotedChunk calm
  · exact (leads_escape noTick depth mark).trans (leads_quotedChunk calm depth)
  · rw [List.cons_append, List.cons_append, escapes, same]
    rfl

theorem quoteStep_join (noTick : quote ≠ '\x60') (doubled : quote = '"') (rest : List Char) :
    QuoteStep quote ('\\' :: '\n' :: rest.takeWhile Text.isBlank) []
      (rest.dropWhile Text.isBlank) := by
  have calm : ∀ char ∈ rest.takeWhile Text.isBlank, char ≠ '\\' ∧ char ≠ quote := by
    intro char member
    have blank := List.all_eq_true.mp List.all_takeWhile char member
    refine ⟨?_, ?_⟩ <;> rintro rfl
    · cases blank
    · subst doubled; cases blank
  refine ⟨List.cons_ne_nil _ _, fun depth inner => ?_, fun depth => ?_, fun fuel other goesOn => ?_⟩
  · exact (isInner_escape noTick inner).quotedChunk calm
  · exact (leads_escape noTick depth '\n').trans (leads_quotedChunk calm depth)
  · have dropped : (rest.takeWhile Text.isBlank ++ other).dropWhile Text.isBlank = other := by
      rw [List.dropWhile_append_of_pos (List.all_eq_true.mp List.all_takeWhile)]
      cases other with
      | nil => rfl
      | cons char other =>
        refine List.dropWhile_cons_of_neg fun blank => ?_
        have begins := goesOn char rfl blank
        have unblank := List.head?_dropWhile_not Text.isBlank rest
        rw [begins] at unblank
        exact absurd blank (Bool.eq_false_iff.mp unblank)
    subst doubled
    simp only [List.cons_append, lexQuoted, dropped]
    simp

theorem quoteStep_double (quotes : isQuote quote = true) (noEscape : quote ≠ '\\')
    (rest : List Char) : QuoteStep quote [quote, quote] [quote] rest where
  filled := List.cons_ne_nil _ _
  inner depth inner := by
    have next := inner.within
    rw [Scan.within, if_neg (by simp [noEscape]), if_pos rfl] at next
    exact next.quoted quotes
  leads depth := by
    have known := isQuote_iff.mp quotes
    have closing := advances_within depth quote quote
    rw [Scan.within_self known] at closing
    exact (Leads.single closing).trans (.single (advances_quote known depth))
  reads fuel other _ := by
    rw [List.cons_append, List.cons_append, List.nil_append, lexQuoted]
    · simp
    · exact noEscape

theorem quoteStep_plain {char : Char} (noEscape : char ≠ '\\') (noQuote : char ≠ quote)
    (noBreak : char ≠ '\n') (rest : List Char) :
    QuoteStep quote [char] [char] rest where
  filled := List.cons_ne_nil _ _
  inner depth inner := by
    have next := inner.within
    rwa [Scan.within, if_neg (by simp [noEscape]), if_neg noQuote] at next
  leads := leads_quotedChunk (List.forall_mem_singleton.mpr ⟨noEscape, noQuote⟩)
  reads fuel other _ := by
    rw [List.singleton_append, lexQuoted.eq_def]
    split
    next => contradiction
    next same => cases same
    next same => exact absurd (List.cons.inj same).1 noEscape
    next _ fuels same =>
      cases fuels
      cases same
      simp [noQuote, noBreak]

/-- How a text is read from a place on: it ends there, or a step leads on. -/
def QuoteReads (quote : Char) (fuel : Nat) (input content rest : List Char) : Prop :=
  (content = [] ∧ input = quote :: rest ∧ rest.head? ≠ some quote) ∨
    ∃ piece letters others left, input = piece ++ left ∧ QuoteStep quote piece letters left ∧
      lexQuoted quote fuel left = some (others, rest) ∧ content = letters ++ others

theorem QuoteStep.quoteReads {fuel : Nat} {piece letters left content rest : List Char}
    (step : QuoteStep quote piece letters left)
    (read : ((lexQuoted quote fuel left).map fun found => (letters ++ found.1, found.2)) =
      some (content, rest)) : QuoteReads quote fuel (piece ++ left) content rest := by
  obtain ⟨⟨others, _⟩, inner, same⟩ := Option.map_eq_some_iff.mp read
  cases same
  exact Or.inr ⟨piece, letters, others, left, rfl, step, inner, rfl⟩

theorem quoteReads_code (quotes : isQuote quote = true) (noTick : quote ≠ '\x60') {mark : Char}
    {count : Nat}
    (escapes : ∀ fuel rest, lexQuoted quote (fuel + 1) ('\\' :: mark :: rest) =
      (lexCode count rest).bind fun code =>
        (lexQuoted quote fuel code.2).map fun found => (code.1 :: found.1, found.2))
    {fuel : Nat} {input content rest : List Char}
    (read : ((lexCode count input).bind fun code =>
      (lexQuoted quote fuel code.2).map fun found => (code.1 :: found.1, found.2)) =
        some (content, rest)) : QuoteReads quote fuel ('\\' :: mark :: input) content rest := by
  obtain ⟨⟨letter, left⟩, code, read⟩ := Option.bind_eq_some_iff.mp read
  obtain ⟨digits, rfl, step⟩ := quoteStep_code quotes noTick escapes code
  rw [code] at read
  exact step.quoteReads read

theorem lexQuoted_cases (quotes : isQuote quote = true) (noTick : quote ≠ '\x60') {fuel : Nat}
    {input content rest : List Char} (read : lexQuoted quote fuel input = some (content, rest)) :
    ∃ less, fuel = less + 1 ∧ QuoteReads quote less input content rest := by
  have noEscape : quote ≠ '\\' := by rintro rfl; cases quotes
  revert read
  fun_cases lexQuoted quote fuel input
  all_goals intro read
  case case1 | case2 | case3 | case12 | case14 | case18 => cases read
  all_goals refine ⟨_, rfl, ?_⟩
  case case4 | case5 | case6 | case10 =>
    exact (quoteStep_escape noTick (fun _ _ => rfl) _).quoteReads read
  case case7 | case8 | case9 => exact quoteReads_code quotes noTick (fun _ _ => rfl) read
  case case11 rest doubled =>
    have step := quoteStep_join noTick (beq_iff_eq.mp doubled) rest
    have cut := List.takeWhile_append_dropWhile (p := Text.isBlank) (l := rest)
    have reads := step.quoteReads (by rw [read]; rfl)
    rwa [List.cons_append, List.cons_append, cut] at reads
  case case13 char rest noTab noLine noReturn noShort noLong noLonger noSlash noBreak same =>
    cases beq_iff_eq.mp same
    refine (quoteStep_escape noTick (fun fuel rest => ?_) rest).quoteReads read
    rw [lexQuoted]
    · simp
    all_goals assumption
  case case15 char noSlash add same next after doubled =>
    cases beq_iff_eq.mp same
    cases beq_iff_eq.mp doubled
    exact (quoteStep_double quotes noEscape after).quoteReads read
  case case16 char noSlash same next after single =>
    cases beq_iff_eq.mp same
    cases read
    exact Or.inl ⟨rfl, rfl, by simpa using single⟩
  case case17 char noSlash same =>
    cases beq_iff_eq.mp same
    cases read
    exact Or.inl ⟨rfl, rfl, by simp⟩
  case case19 char rest noSlash add other noBreak =>
    exact (quoteStep_plain noSlash (by simpa using other) (by simpa using noBreak) rest).quoteReads
      read

theorem lexQuoted_end (noEscape : quote ≠ '\\') {rest : List Char}
    (single : rest.head? ≠ some quote) (fuel : Nat) :
    lexQuoted quote (fuel + 1) (quote :: rest) = some ([], rest) := by
  cases rest with
  | nil =>
    rw [lexQuoted]
    · simp
    · exact noEscape
  | cons next rest =>
    have other : next ≠ quote := by simpa using single
    rw [lexQuoted]
    · simp [other]
    · exact noEscape

/-- The chunk of a quoted text with its closing quote: the scan leaves its quotes with it, and it
has the same content whatever follows that is no quote. -/
structure QuotedChunk (quote : Char) (chunk content rest : List Char) : Prop where
  filled : chunk ≠ []
  single : rest.head? ≠ some quote
  inner : ∀ depth, IsInner depth (.quoted quote) (chunk ++ rest) → IsInner depth .outside rest
  leads : ∀ depth, Leads depth (.quoted quote) chunk depth .outside
  reads : ∀ fuel other, chunk.length ≤ fuel → other.head? ≠ some quote →
    lexQuoted quote fuel (chunk ++ other) = some (content, other)

theorem exists_quotedChunk (quotes : isQuote quote = true) (noTick : quote ≠ '\x60') {fuel : Nat}
    {input content rest : List Char} (read : lexQuoted quote fuel input = some (content, rest)) :
    ∃ chunk, input = chunk ++ rest ∧ QuotedChunk quote chunk content rest := by
  have noEscape : quote ≠ '\\' := by rintro rfl; cases quotes
  induction fuel generalizing input content with
  | zero =>
    obtain ⟨_, same, _⟩ := lexQuoted_cases quotes noTick read
    cases same
  | succ fuel ih =>
    obtain ⟨less, same, reads⟩ := lexQuoted_cases quotes noTick read
    cases same
    rcases reads with ⟨rfl, rfl, single⟩ | ⟨piece, letters, others, left, rfl, step, later, rfl⟩
    · refine ⟨[quote], rfl, List.cons_ne_nil _ _, single, fun depth inner => ?_, fun depth => ?_,
        fun fuel other enough noQuote => ?_⟩
      · have next := inner.within
        rwa [Scan.within_self (isQuote_iff.mp quotes)] at next
      · have closing := advances_within depth quote quote
        rw [Scan.within_self (isQuote_iff.mp quotes)] at closing
        exact .single closing
      · obtain ⟨fuel, rfl⟩ := Nat.exists_eq_add_of_le' enough
        exact lexQuoted_end noEscape noQuote fuel
    · obtain ⟨chunk, rfl, known⟩ := ih later
      refine ⟨piece ++ chunk, by simp, List.append_ne_nil_of_left_ne_nil step.filled chunk,
        known.single, fun depth inner => ?_, fun depth => ?_, fun fuel other enough noQuote => ?_⟩
      · rw [List.append_assoc] at inner
        exact known.inner depth (step.inner depth inner)
      · exact (step.leads depth).trans (known.leads depth)
      · have filled := List.length_pos_iff.mpr step.filled
        rw [List.length_append] at enough
        obtain ⟨fuel, rfl⟩ : ∃ less, fuel = less + 1 := ⟨fuel - 1, by omega⟩
        have goesOn : Continues (chunk ++ rest) (chunk ++ other) := by
          obtain ⟨first, others, rfl⟩ := List.exists_cons_of_ne_nil known.filled
          exact fun char begins _ => begins
        rw [List.append_assoc, step.reads fuel _ goesOn, known.reads fuel other (by omega) noQuote]
        rfl

/-- A quoted text ends outside of quotes, and where it ends before the end of a hole. -/
theorem lexQuoted_before (quotes : isQuote quote = true) (noTick : quote ≠ '\x60') {fuel : Nat}
    {input content rest : List Char} (read : lexQuoted quote fuel input = some (content, rest)) :
    (∀ depth, IsInner depth (.quoted quote) input → IsInner depth .outside rest) ∧
      ∀ other more, input.length ≤ other → lexQuoted quote other (input ++ '\x7d' :: more) =
        some (content, rest ++ '\x7d' :: more) := by
  obtain ⟨chunk, rfl, known⟩ := exists_quotedChunk quotes noTick read
  refine ⟨known.inner, fun other more enough => ?_⟩
  have single : (rest ++ '\x7d' :: more).head? ≠ some quote := by
    cases rest with
    | nil =>
      rintro ⟨⟩
      cases quotes
    | cons next rest => exact known.single
  rw [List.length_append] at enough
  rw [List.append_assoc, known.reads other _ (by omega) single]

end

/-! ## Raw texts -/

section

variable {signs content chunk : List Char}

theorem RawChunk.staysOutside (raw : RawChunk signs content chunk) :
    ∀ char ∈ signs, staysOutside char = true := by
  intro char member
  rw [raw.onlySigns char member]
  rfl

theorem RawChunk.balanced (raw : RawChunk signs content chunk)
    (balanced : Balanced ('"' :: (content ++ ['"']))) : Balanced chunk := by
  have behind : Balanced ('#' :: signs) :=
    balanced_of_outside (List.forall_mem_cons.mpr ⟨rfl, raw.staysOutside⟩)
  have whole : chunk = signs ++ ('"' :: (content ++ ['"']) ++ '#' :: signs) := by
    rw [raw.whole]
    simp
  rw [whole]
  exact (balanced_of_outside raw.staysOutside).append (balanced.append behind)

end

end Script

end Recast
