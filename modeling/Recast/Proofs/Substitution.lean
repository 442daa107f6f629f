import Recast.Expansion
import Recast.Proofs.BalancedHoles
import Recast.Proofs.DecimalText
import Recast.Proofs.PlaceholderGrammar

set_option autoImplicit false

/-!
# Templates that only substitute

A template of literal text and holes, each of which names a value or a segment of the tag. Cutting
its source into pieces gives the literals and the holes back.
-/

namespace Recast.Template

/-- A hole for the value of a name or for a segment of the tag. -/
inductive Hole where
  | named (name : String)
  | segment (family : String) (index : Int)

def Hole.inner : Hole → String
  | .named name => name
  | .segment family index => Placeholder.segmentName family index

def Hole.token (hole : Hole) : String :=
  Placeholder.token hole.inner

/-- A template of literals and holes, with a literal, which may be empty, before each hole and at
the end. -/
inductive Plain where
  | last (literal : List Char)
  | more (literal : List Char) (hole : Hole) (rest : Plain)

namespace Plain

def source : Plain → List Char
  | .last literal => literal
  | .more literal hole rest => literal ++ (hole.token.toList ++ rest.source)

def literals : Plain → List (List Char)
  | .last literal => [literal]
  | .more literal _ rest => literal :: rest.literals

def holes : Plain → List Hole
  | .last _ => []
  | .more _ hole rest => hole :: rest.holes

def pieces : Plain → List Piece
  | .last literal => literalOf literal.reverse
  | .more literal hole rest => literalOf literal.reverse ++ .placeholder hole.token :: rest.pieces

end Plain

/-- A literal opens no hole, has no legacy token in it and no carriage return. -/
structure IsLiteral (text : List Char) : Prop where
  opensNone : ¬ ['$', '\x7b'] <:+: text
  legacyNone : ∀ name, name ≠ [] → (∀ char ∈ name, isLegacyChar char = true) →
    ¬ ['_', '_'] ++ name ++ ['_', '_'] <:+: text
  returnsNone : '\r' ∉ text

/-- The words of a hole: a name of small letters and underscores that the grammar does not use, or
one of the families of segments. -/
def Hole.IsPlain : Hole → Prop
  | .named name => name ≠ "" ∧ (∀ char ∈ name.toList, isNameChar char = true) ∧
      name ∉ Script.keywords ∧ name ∉ Script.reservedWords
  | .segment family _ => family ∈ Placeholder.families

/-- The text after a literal: nothing, or a hole. -/
def StopsLiteral (text : List Char) : Prop :=
  ∀ char ∈ text.head?, char = '$'

theorem toList_token (name : String) :
    (Placeholder.token name).toList = '$' :: '\x7b' :: (name.toList ++ ['\x7d']) := by
  simp [Placeholder.token, String.toList_append]

theorem token_ne_nil (hole : Hole) : hole.token.toList ≠ [] := by
  rw [Hole.token, toList_token]
  exact List.cons_ne_nil _ _

theorem toList_segmentName (family : String) (index : Int) :
    (Placeholder.segmentName family index).toList =
      family.toList ++ '[' :: (Decimal.intText index ++ [']']) := by
  simp [Placeholder.segmentName, String.toList_append]

theorem stopsLiteral_token (hole : Hole) (rest : List Char) :
    StopsLiteral (hole.token.toList ++ rest) := by
  rw [Hole.token, toList_token]
  intro char first
  exact (Option.some.inj first).symm

theorem Plain.stopsLiteral_nil : StopsLiteral [] := nofun

/-! ## Literals -/

/-- What begins in a literal ends there, or it goes on behind the literal with a dollar sign. -/
private theorem isPrefix_or_dollar {word suffix rest : List Char} (stops : StopsLiteral rest)
    (within : word <+: suffix ++ rest) :
    word <+: suffix ∨ ∃ more, word = suffix ++ '$' :: more := by
  obtain ⟨after, joined⟩ := within
  obtain ⟨beyond, split, _⟩ | ⟨beyond, split, follows⟩ := List.append_eq_append_iff.mp joined
  · exact .inl ⟨beyond, split.symm⟩
  · cases beyond with
    | nil =>
      rw [split, List.append_nil]
      exact .inl List.prefix_rfl
    | cons char beyond =>
      obtain rfl : char = '$' := stops char (by rw [follows]; rfl)
      exact .inr ⟨beyond, split⟩

/-- No placeholder begins in a literal. -/
theorem silent_of_isLiteral {literal rest : List Char} (plain : IsLiteral literal)
    (stops : StopsLiteral rest) : Silent literal rest := by
  rw [silent_iff]
  intro offset inside word isWord within
  rw [List.drop_append_of_le_length (Nat.le_of_lt inside)] at within
  have ending : literal.drop offset <:+ literal := List.drop_suffix offset literal
  have shown : literal.drop offset ≠ [] := by simpa using inside
  generalize literal.drop offset = suffix at within ending shown
  obtain front | ⟨more, split⟩ := isPrefix_or_dollar stops within
  · have word := front.isInfix.trans ending.isInfix
    cases isWord with
    | braced _ _ _ =>
      exact plain.opensNone ((List.prefix_append ['$', '\x7b'] _).isInfix.trans word)
    | legacy filled letters =>
      exact plain.legacyNone _ filled letters (by simpa using word)
  · cases isWord with
    | braced filled letters known =>
      obtain ⟨first, suffix, rfl⟩ := List.exists_cons_of_ne_nil shown
      cases suffix with
      | nil => cases split
      | cons second suffix =>
        obtain ⟨rfl, rfl, _⟩ := by simpa using split
        have front := List.prefix_append ['$', '\x7b'] suffix
        exact plain.opensNone (front.isInfix.trans ending.isInfix)
    | @legacy name filled letters =>
      have dollar : '$' ∈ '_' :: '_' :: (name ++ ['_', '_']) := by simp [split]
      have inName : '$' ∈ name := by simpa using dollar
      exact absurd (letters '$' inName) (by decide)

/-! ## Holes -/

theorem isIndex_intText (index : Int) : IsIndex ('[' :: (Decimal.intText index ++ [']'])) := by
  have digits : ∀ number, ∀ digit ∈ Decimal.natText number, digit.isDigit = true :=
    fun _ _ => Decimal.isDigit_of_mem_natText
  cases index with
  | ofNat number => exact .mk (.inl rfl) (Decimal.natText_ne_nil number) (digits number)
  | negSucc number => exact .mk (.inr rfl) (Decimal.natText_ne_nil _) (digits (number + 1))

theorem isNameChar_of_mem_family {family : String} (known : family ∈ Placeholder.families) :
    ∀ char ∈ family.toList, isNameChar char = true := by
  rw [← List.all_eq_true]
  revert family
  decide

theorem wordLength?_token {hole : Hole} (plain : hole.IsPlain) (rest : List Char) :
    wordLength? (hole.token.toList ++ rest) = some hole.token.toList.length := by
  rw [Hole.token, toList_token]
  cases hole with
  | named name =>
    obtain ⟨filled, letters, _⟩ := plain
    have some : name.toList ≠ [] := by simpa using filled
    exact wordLength?_braced some letters (.inl rfl) rest
  | segment family index =>
    have filled : ∀ family ∈ Placeholder.families, family.toList ≠ [] := by decide
    have found := wordLength?_braced (filled family plain) (isNameChar_of_mem_family plain)
      (.inr (isIndex_intText index)) rest
    rwa [← List.append_assoc, ← toList_segmentName] at found

/-- The pieces of a template are its literals and holes. -/
theorem pieces_source {template : Plain}
    (literals : ∀ literal ∈ template.literals, IsLiteral literal)
    (holes : ∀ hole ∈ template.holes, hole.IsPlain) :
    pieces (String.ofList template.source) = template.pieces := by
  rw [pieces, String.toList_ofList]
  induction template with
  | last literal =>
    have silent := silent_of_isLiteral (literals literal List.mem_cons_self) Plain.stopsLiteral_nil
    have cut := piecesFrom_silent [] silent
    rwa [List.append_nil, List.append_nil] at cut
  | more literal hole rest ih =>
    have silent := silent_of_isLiteral (literals literal List.mem_cons_self)
      (stopsLiteral_token hole rest.source)
    have found := wordLength?_token (holes hole List.mem_cons_self) rest.source
    have others := ih (fun literal member => literals literal (List.mem_cons_of_mem _ member))
      (fun hole member => holes hole (List.mem_cons_of_mem _ member))
    rw [Plain.source, piecesFrom_silent [] silent, piecesFrom_word _ (token_ne_nil hole) found,
      String.ofList_toList, others, List.append_nil, Plain.pieces]

theorem nameChar_cases {char : Char} (letter : isNameChar char = true) :
    char = '_' ∨ 97 ≤ char.toNat ∧ char.toNat ≤ 122 := by
  rw [isNameChar, Bool.or_eq_true, Bool.and_eq_true, decide_eq_true_eq, decide_eq_true_eq,
    beq_iff_eq] at letter
  rcases letter with ⟨above, below⟩ | rfl
  · exact Or.inr ⟨above, below⟩
  · exact Or.inl rfl

theorem isBlank_of_isNameChar {char : Char} (letter : isNameChar char = true) :
    Text.isBlank char = false := by
  rcases nameChar_cases letter with rfl | range
  · rfl
  · simp only [Text.isBlank, Bool.or_eq_false_iff, Bool.and_eq_false_iff, decide_eq_false_iff_not,
      beq_eq_false_iff_ne]
    omega

def isHoleChar (char : Char) : Bool :=
  isNameChar char || char.isDigit || ['[', ']', '-'].contains char

theorem isHoleChar_of_mem_inner {hole : Hole} (plain : hole.IsPlain) :
    ∀ char ∈ hole.inner.toList, isHoleChar char = true := by
  have ofName : ∀ char, isNameChar char = true → isHoleChar char = true := by
    intro char letter
    rw [isHoleChar, letter]
    rfl
  have ofDigit : ∀ number, ∀ char ∈ Decimal.natText number, isHoleChar char = true := by
    intro number char member
    rw [isHoleChar, Decimal.isDigit_of_mem_natText member, Bool.or_true]
    rfl
  intro char member
  cases hole with
  | named name => exact ofName char (plain.2.1 char member)
  | segment family index =>
    rw [Hole.inner, toList_segmentName] at member
    rcases List.mem_append.mp member with member | member
    · exact ofName char (isNameChar_of_mem_family plain char member)
    rcases List.mem_cons.mp member with rfl | member
    · rfl
    rcases List.mem_append.mp member with member | member
    · cases index with
      | ofNat number => exact ofDigit _ char member
      | negSucc number =>
        rcases List.mem_cons.mp member with rfl | member
        · rfl
        · exact ofDigit _ char member
    · rw [List.mem_singleton.mp member]
      rfl

/-! ## Templates of one hole -/

/-- The hole that is the whole template. -/
def Plain.single? : Plain → Option Hole
  | .more [] hole (.last []) => some hole
  | _ => none

theorem single?_pieces (template : Plain) :
    Template.single? template.pieces = template.single?.map Hole.token := by
  have notEmpty : ∀ literal : List Char, literal ≠ [] →
      literalOf literal.reverse = [.literal (String.ofList literal)] := by
    intro literal filled
    rw [literalOf, List.reverse_reverse, if_neg]
    rw [List.isEmpty_iff, List.reverse_eq_nil_iff]
    exact filled
  cases template with
  | last literal =>
    cases literal with
    | nil => rfl
    | cons char literal =>
      rw [Plain.pieces, notEmpty _ (List.cons_ne_nil _ _)]
      rfl
  | more literal hole rest =>
    cases literal with
    | nil =>
      cases rest with
      | last literal =>
        cases literal with
        | nil => rfl
        | cons char literal =>
          rw [Plain.pieces, Plain.pieces, notEmpty _ (List.cons_ne_nil _ _)]
          rfl
      | more literal next rest =>
        rw [Plain.pieces, Plain.pieces]
        cases literalOf literal.reverse with
        | nil => rfl
        | cons piece pieces => rfl
    | cons char literal =>
      rw [Plain.pieces, notEmpty _ (List.cons_ne_nil _ _)]
      rfl

/-- The character opens no quote and is no brace. -/
def staysOutside (char : Char) : Bool :=
  !isQuote char && char != '\x7b' && char != '\x7d'

theorem balanced_of_outside {text : List Char} (calm : ∀ char ∈ text, staysOutside char = true) :
    Balanced text := by
  induction text with
  | nil => exact .nil
  | cons char text ih =>
    have outside := calm char List.mem_cons_self
    refine .plain ?_ (ih fun char member => calm char (List.mem_cons_of_mem _ member))
    simp only [staysOutside, isQuote, Bool.and_eq_true, Bool.not_eq_true', Bool.or_eq_false_iff,
      beq_eq_false_iff_ne, bne_iff_ne] at outside
    simp [outside]

/-- The characters of a class stay outside if it has no quote and no brace. -/
theorem staysOutside_of {isMember : Char → Bool}
    (others : ['"', '\'', '\x60', '\x7b', '\x7d'].any isMember = false) {char : Char}
    (member : isMember char = true) : staysOutside char = true := by
  have different : char ∉ ['"', '\'', '\x60', '\x7b', '\x7d'] := by
    intro listed
    rw [List.any_eq_false] at others
    exact others char listed member
  simp only [List.mem_cons, List.not_mem_nil, or_false, not_or] at different
  obtain ⟨noText, noLetter, noTick, noOpening, noClosing⟩ := different
  simp [staysOutside, isQuote, noText, noLetter, noTick, noOpening, noClosing]

theorem staysOutside_of_isHoleChar {char : Char} (inHole : isHoleChar char = true) :
    staysOutside char = true :=
  staysOutside_of rfl inHole

theorem closeHole?_outside {inner : List Char}
    (calm : ∀ char ∈ inner, staysOutside char = true) (rest : List Char) :
    closeHole? (inner ++ '\x7d' :: rest) = some (inner, rest) := by
  exact closeHole?_eq_some_iff.mpr ⟨rfl, balanced_of_outside calm⟩

/-- Braces around plain characters are a single hole, if nothing follows them. -/
theorem singleHole?_outside {inner : List Char} (calm : ∀ char ∈ inner, staysOutside char = true)
    (shown : Text.isAllBlank inner = false) (rest : List Char) :
    singleHole? ('$' :: '\x7b' :: (inner ++ '\x7d' :: rest)) =
      if rest.isEmpty then some inner else none := by
  rw [singleHole?, closeHole?_outside calm]
  cases rest with
  | nil =>
    dsimp only
    rw [shown]
    rfl
  | cons char rest => rfl

private theorem isAllBlank_inner {hole : Hole} (plain : hole.IsPlain) :
    Text.isAllBlank hole.inner.toList = false := by
  obtain ⟨char, more, written, letter⟩ : ∃ char more, hole.inner.toList = char :: more ∧
      isNameChar char = true := by
    cases hole with
    | named name =>
      obtain ⟨filled, letters, _⟩ := plain
      cases written : name.toList with
      | nil => exact absurd (String.toList_eq_nil_iff.mp written) filled
      | cons char more => exact ⟨char, more, written, letters char (written ▸ List.mem_cons_self)⟩
    | segment family index =>
      have letters := isNameChar_of_mem_family plain
      have filled : ∀ family ∈ Placeholder.families, family.toList ≠ [] := by decide
      rw [Hole.inner, toList_segmentName]
      cases written : family.toList with
      | nil => exact absurd written (filled family plain)
      | cons char more => exact ⟨char, _, rfl, letters char (written ▸ List.mem_cons_self)⟩
  rw [Text.isAllBlank, written, List.all_cons, isBlank_of_isNameChar letter]
  rfl

private theorem singleHole?_token {hole : Hole} (plain : hole.IsPlain) (rest : List Char) :
    singleHole? (hole.token.toList ++ rest) =
      if rest.isEmpty then some hole.inner.toList else none := by
  have source : hole.token.toList ++ rest =
      '$' :: '\x7b' :: (hole.inner.toList ++ '\x7d' :: rest) := by
    rw [Hole.token, toList_token]
    simp
  rw [source]
  exact singleHole?_outside (fun char member =>
    staysOutside_of_isHoleChar (isHoleChar_of_mem_inner plain char member))
    (isAllBlank_inner plain) rest

theorem singleHole?_literal {literal rest : List Char} (opensNone : ¬ ['$', '\x7b'] <:+: literal)
    (filled : literal ≠ []) (stops : rest.head? ≠ some '\x7b') :
    singleHole? (literal ++ rest) = none := by
  unfold singleHole?
  split
  next body same =>
    cases literal with
    | nil => exact absurd rfl filled
    | cons char literal =>
      cases literal with
      | nil =>
        obtain ⟨_, rfl⟩ := List.cons.inj same
        exact absurd rfl stops
      | cons next literal =>
        simp only [List.cons_append, List.cons.injEq] at same
        obtain ⟨rfl, rfl, _⟩ := same
        exact absurd (List.prefix_append ['$', '\x7b'] literal).isInfix opensNone
  next => rfl

theorem singleHole?_source {template : Plain}
    (literals : ∀ literal ∈ template.literals, IsLiteral literal)
    (holes : ∀ hole ∈ template.holes, hole.IsPlain) :
    singleHole? template.source = template.single?.map fun hole => hole.inner.toList := by
  cases template with
  | last literal =>
    cases literal with
    | nil => rfl
    | cons char literal =>
      have noBrace : ([] : List Char).head? ≠ some '\x7b' := nofun
      have none := singleHole?_literal (literals _ List.mem_cons_self).opensNone
        (List.cons_ne_nil _ _) noBrace
      rwa [List.append_nil] at none
  | more literal hole rest =>
    cases literal with
    | nil =>
      rw [Plain.source, List.nil_append, singleHole?_token (holes hole List.mem_cons_self)]
      cases rest with
      | last literal => cases literal <;> rfl
      | more literal next rest =>
        rw [if_neg]
        · rfl
        · rw [Plain.source, Hole.token, toList_token, List.isEmpty_iff]
          simp
    | cons char literal =>
      refine singleHole?_literal (literals _ List.mem_cons_self).opensNone (List.cons_ne_nil _ _) ?_
      rw [Hole.token, toList_token]
      nofun

end Recast.Template
