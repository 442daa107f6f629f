import Recast.Proofs.HoleTokens

set_option autoImplicit false

/-!
# Reading a template as a script

A template that only substitutes becomes a text between back-ticks. Its tokens are its literals and
those of its holes, except that a hole after a backslash is read as part of its literal.
-/

namespace Recast

namespace Template

/-- A backslash at the end of a literal hides the opening of a hole. -/
def escapes (literal : List Char) : Bool :=
  literal.getLast? == some '\\'

def Plain.prepend (text : List Char) : Plain → Plain
  | .last literal => .last (text ++ literal)
  | .more literal hole rest => .more (text ++ literal) hole rest

/-- A template as a script reads it. -/
def Plain.scripted : Plain → Plain
  | .last literal => .last literal
  | .more literal hole rest =>
    if escapes literal then rest.scripted.prepend (literal.dropLast ++ hole.token.toList)
    else .more literal hole rest.scripted

end Template

namespace Script

/-! ## Parts of a text -/

theorem lexPart_fuel {fuel other : Nat} {input : List Char} (enough : input.length < fuel)
    (otherEnough : input.length < other) : lexPart fuel input = lexPart other input := by
  induction fuel generalizing other input with
  | zero => cases enough
  | succ fuel ih =>
    cases other with
    | zero => cases otherEnough
    | succ other =>
      cases input with
      | nil => rfl
      | cons char rest =>
        have shorter : ∀ tail : List Char, tail.length ≤ rest.length →
            lexPart fuel tail = lexPart other tail := by
          intro tail bound
          rw [List.length_cons] at enough otherEnough
          exact ih (by omega) (by omega)
        simp only [lexPart]
        split
        · rw [shorter _ (by simp)]
        · rfl
        · rw [shorter _ (by simp)]
        · rfl
        · rw [shorter _ (by simp)]
        · rw [shorter _ (Nat.le_refl _)]

def readPart (input : List Char) : Option (List Char × Bool × List Char) :=
  lexPart (input.length + 1) input

def prependPart (text : List Char) (found : List Char × Bool × List Char) :
    List Char × Bool × List Char :=
  (text ++ found.1, found.2)

theorem lexPart_eq_readPart {fuel : Nat} {input : List Char} (enough : input.length < fuel) :
    lexPart fuel input = readPart input :=
  lexPart_fuel enough (Nat.lt_succ_self _)

theorem readPart_tick (rest : List Char) :
    readPart ('\x60' :: '\x60' :: rest) = (readPart rest).map (prependPart ['\x60']) := by
  rw [readPart, List.length_cons, lexPart]
  dsimp only
  rw [lexPart_eq_readPart (by rw [List.length_cons]; omega)]
  rfl

theorem readPart_end : readPart ['\x60'] = some ([], false, []) := rfl

theorem readPart_hole (rest : List Char) :
    readPart ('$' :: '\x7b' :: rest) = some ([], true, rest) := rfl

theorem readPart_escape (rest : List Char) :
    readPart ('\\' :: '$' :: '\x7b' :: rest) =
      (readPart ('\x7b' :: rest)).map (prependPart ['$']) := by
  rw [readPart, List.length_cons, lexPart]
  dsimp only
  rw [lexPart_eq_readPart (by simp)]
  rfl

theorem readPart_char {char : Char} {rest : List Char} (noTick : char ≠ '\x60')
    (noHole : ¬ ['$', '\x7b'] <+: char :: rest)
    (noEscape : ¬ ['\\', '$', '\x7b'] <+: char :: rest) (noReturn : char ≠ '\r') :
    readPart (char :: rest) = (readPart rest).map (prependPart [char]) := by
  rw [readPart, List.length_cons]
  simp only [lexPart]
  split
  · contradiction
  · contradiction
  · exact absurd (List.prefix_append ['\\', '$', '\x7b'] _) noEscape
  · exact absurd (List.prefix_append ['$', '\x7b'] _) noHole
  · contradiction
  · rw [lexPart_eq_readPart (Nat.lt_succ_self _)]
    rfl

open Template

theorem doubleTicks_cons_of_ne {char : Char} (other : char ≠ '\x60') (rest : List Char) :
    doubleTicks (char :: rest) = char :: doubleTicks rest := by
  rw [doubleTicks, List.flatMap_cons, if_neg other]
  rfl

theorem doubleTicks_append (left right : List Char) :
    doubleTicks (left ++ right) = doubleTicks left ++ doubleTicks right :=
  List.flatMap_append

theorem doubleTicks_eq_self {text : List Char} (ticksNone : '\x60' ∉ text) :
    doubleTicks text = text := by
  induction text with
  | nil => rfl
  | cons char rest ih =>
    rw [List.mem_cons, not_or] at ticksNone
    rw [doubleTicks_cons_of_ne (Ne.symm ticksNone.1), ih ticksNone.2]

theorem length_le_doubleTicks (text : List Char) : text.length ≤ (doubleTicks text).length := by
  induction text with
  | nil => exact Nat.le_refl 0
  | cons char rest ih =>
    rw [doubleTicks, List.flatMap_cons, List.length_append, List.length_cons, Nat.add_comm]
    refine Nat.add_le_add ?_ ih
    split <;> simp

theorem doubleTicks_eq_self_iff (text : List Char) : doubleTicks text = text ↔ '\x60' ∉ text := by
  refine ⟨?_, doubleTicks_eq_self⟩
  intro same member
  induction text with
  | nil => cases member
  | cons char rest ih =>
    by_cases tick : char = '\x60'
    · have longer := congrArg List.length same
      have within := length_le_doubleTicks rest
      rw [tick, doubleTicks, List.flatMap_cons, if_pos rfl, List.length_append,
        List.length_cons, List.length_cons, List.length_nil, List.length_cons] at longer
      rw [doubleTicks] at within
      omega
    · rw [doubleTicks_cons_of_ne tick, List.cons_inj_right] at same
      rcases List.mem_cons.mp member with first | later
      · exact tick first.symm
      · exact ih same later

/-- What follows a literal between back-ticks does not go on with the opening of a hole. -/
def StopsPart (text : List Char) : Prop :=
  text.head? ≠ some '\x7b'

theorem opensNone_doubleTicks {char : Char} {rest tail : List Char}
    (opensNone : ¬ ['$', '\x7b'] <:+: char :: rest) (stops : StopsPart tail) :
    ¬ ['$', '\x7b'] <+: doubleTicks (char :: rest) ++ tail := by
  intro front
  by_cases tick : char = '\x60'
  · subst tick
    have first := (List.cons_prefix_cons.mp front).1
    contradiction
  rw [doubleTicks_cons_of_ne tick, List.cons_append, List.cons_prefix_cons] at front
  obtain ⟨rfl, front⟩ := front
  cases rest with
  | nil =>
    cases tail with
    | nil => cases List.prefix_nil.mp front
    | cons next tail =>
      exact stops (congrArg some (List.cons_prefix_cons.mp front).1.symm)
  | cons next rest =>
    by_cases tick : next = '\x60'
    · subst tick
      have second := (List.cons_prefix_cons.mp front).1
      contradiction
    rw [doubleTicks_cons_of_ne tick, List.cons_append, List.cons_prefix_cons] at front
    obtain ⟨rfl, _⟩ := front
    exact opensNone (List.prefix_append _ rest).isInfix

theorem prependPart_comp (char : Char) (rest : List Char) :
    prependPart [char] ∘ prependPart rest = prependPart (char :: rest) := rfl

/-- A literal is read as it is, unless a backslash at its end meets a hole. -/
theorem readPart_literal {text tail : List Char} (opensNone : ¬ ['$', '\x7b'] <:+: text)
    (returnsNone : '\r' ∉ text) (stops : StopsPart tail)
    (unescaped : text.getLast? = some '\\' → ¬ ['$', '\x7b'] <+: tail) :
    readPart (doubleTicks text ++ tail) = (readPart tail).map (prependPart text) := by
  induction text with
  | nil =>
    have same : prependPart [] = id := rfl
    rw [same, Option.map_id]
    rfl
  | cons char rest ih =>
    rw [List.mem_cons, not_or] at returnsNone
    have opensLater : ¬ ['$', '\x7b'] <:+: rest := fun within =>
      opensNone (within.trans (List.suffix_cons char rest).isInfix)
    have unescapedLater : rest.getLast? = some '\\' → ¬ ['$', '\x7b'] <+: tail := by
      intro last
      apply unescaped
      rw [List.getLast?_cons, last]
      rfl
    have others := ih opensLater returnsNone.2 unescapedLater
    by_cases tick : char = '\x60'
    · subst tick
      have step := readPart_tick (doubleTicks rest ++ tail)
      rw [others, Option.map_map, prependPart_comp] at step
      exact step
    · have noHole := opensNone_doubleTicks opensNone stops
      rw [doubleTicks_cons_of_ne tick, List.cons_append] at noHole ⊢
      have noEscape : ¬ ['\\', '$', '\x7b'] <+: char :: (doubleTicks rest ++ tail) := by
        intro front
        obtain ⟨rfl, opens⟩ := List.cons_prefix_cons.mp front
        cases rest with
        | nil => exact unescaped rfl opens
        | cons next rest => exact opensNone_doubleTicks opensLater stops opens
      rw [readPart_char tick noHole noEscape (Ne.symm returnsNone.1), others, Option.map_map,
        prependPart_comp]

theorem readPart_chars {text : List Char} (tail : List Char)
    (calm : ∀ char ∈ text, char ∉ ['\x60', '$', '\\', '\r']) :
    readPart (text ++ tail) = (readPart tail).map (prependPart text) := by
  induction text with
  | nil =>
    have same : prependPart [] = id := rfl
    rw [same, Option.map_id]
    rfl
  | cons char rest ih =>
    have first := calm char List.mem_cons_self
    simp only [List.mem_cons, List.not_mem_nil, or_false, not_or] at first
    obtain ⟨noTick, noHole, noEscape, noReturn⟩ := first
    have others := ih fun char member => calm char (List.mem_cons_of_mem _ member)
    rw [List.cons_append, readPart_char noTick
      (fun front => noHole (List.cons_prefix_cons.mp front).1.symm)
      (fun front => noEscape (List.cons_prefix_cons.mp front).1.symm) noReturn, others,
      Option.map_map, prependPart_comp]

/-! ## Holes that are read as text -/

theorem calm_inner {hole : Hole} (plain : hole.IsPlain) :
    ∀ char ∈ hole.inner.toList, char ∉ ['\x60', '$', '\\', '\r'] := by
  intro char member special
  have inHole := isHoleChar_of_mem_inner plain char member
  simp only [List.mem_cons, List.not_mem_nil, or_false] at special
  rcases special with rfl | rfl | rfl | rfl <;> cases inHole

theorem doubleTicks_token {hole : Hole} (plain : hole.IsPlain) (rest : List Char) :
    doubleTicks (hole.token.toList ++ rest) =
      '$' :: '\x7b' :: (hole.inner.toList ++ '\x7d' :: doubleTicks rest) := by
  have ticksNone : '\x60' ∉ hole.token.toList := by
    rw [Hole.token, toList_token]
    intro member
    simp only [List.mem_cons, List.mem_append, List.not_mem_nil, or_false] at member
    rcases member with same | same | member | same
    · cases same
    · cases same
    · exact calm_inner plain _ member List.mem_cons_self
    · cases same
  rw [doubleTicks_append, doubleTicks_eq_self ticksNone, Hole.token, toList_token]
  simp

/-- A hole after a backslash is read as text, without the backslash. -/
theorem readPart_escaped {literal : List Char} (plain : IsLiteral literal)
    (escaped : escapes literal = true) {hole : Hole} (holePlain : hole.IsPlain)
    (tail : List Char) :
    readPart (doubleTicks literal ++
        ('$' :: '\x7b' :: (hole.inner.toList ++ '\x7d' :: tail))) =
      (readPart tail).map (prependPart (literal.dropLast ++ hole.token.toList)) := by
  -- The literal is read up to its backslash, then the escape, then the hole as plain characters.
  obtain ⟨front, rfl⟩ := List.getLast?_eq_some_iff.mp (beq_iff_eq.mp escaped)
  have within : front <:+: front ++ ['\\'] := (List.prefix_append front _).isInfix
  have cut : doubleTicks (front ++ ['\\']) = doubleTicks front ++ ['\\'] := doubleTicks_append _ _
  have calm : ∀ char ∈ '\x7b' :: (hole.inner.toList ++ ['\x7d']),
      char ∉ ['\x60', '$', '\\', '\r'] := by
    intro char member
    rcases List.mem_cons.mp member with rfl | member
    · decide
    rcases List.mem_append.mp member with member | member
    · exact calm_inner holePlain char member
    · rw [List.mem_singleton.mp member]
      decide
  have body := readPart_chars tail calm
  rw [cut, List.append_assoc, readPart_literal (fun opens => plain.opensNone (opens.trans within))
    (fun member => plain.returnsNone (within.subset member)) (by simp [StopsPart])
    (fun _ opens => by simp at opens)]
  have opening := readPart_escape (hole.inner.toList ++ '\x7d' :: tail)
  have inner : '\x7b' :: (hole.inner.toList ++ '\x7d' :: tail) =
      '\x7b' :: (hole.inner.toList ++ ['\x7d']) ++ tail := by simp
  rw [inner, body, Option.map_map] at opening
  rw [List.singleton_append, inner, opening, Option.map_map, List.dropLast_concat, Hole.token,
    toList_token]
  congr 1
  funext found
  simp [prependPart]

/-! ## Tokens -/

/-- The tokens of a template as a script reads it. -/
def templateTokens? : Plain → Option (List Token)
  | .last literal => some [.part (String.ofList literal) false]
  | .more literal hole rest =>
    (holeTokens? hole).bind fun inner =>
      (templateTokens? rest).map fun others =>
        .part (String.ofList literal) true :: .symbol "\x7b" :: (inner ++ .symbol "\x7d" :: others)

def prependTokens (text : List Char) : List Token → List Token
  | .part content more :: tokens => .part (String.ofList text ++ content) more :: tokens
  | tokens => tokens

theorem templateTokens?_prepend (text : List Char) (template : Plain) :
    templateTokens? (template.prepend text) =
      (templateTokens? template).map (prependTokens text) := by
  cases template with
  | last literal => simp [Plain.prepend, templateTokens?, prependTokens, String.ofList_append]
  | more literal hole rest =>
    rw [Plain.prepend, templateTokens?, templateTokens?]
    cases holeTokens? hole with
    | none => rfl
    | some inner =>
      cases templateTokens? rest with
      | none => rfl
      | some others => simp [prependTokens, String.ofList_append]

/-- The tokens of a text between back-ticks from one of its parts on. -/
def lexTail (fuel : Nat) (input : List Char) : Option (List Token) :=
  (lexText [] input).bind fun read =>
    (lexFrom fuel read.holes read.operand read.rest).map (read.tokens ++ ·)

theorem lexTail_eq (fuel : Nat) (input : List Char) :
    lexTail fuel input = (readPart input).bind fun found =>
      if found.2.1 then
        (lexFrom fuel [1] false found.2.2).map fun tokens =>
          .part (String.ofList found.1) true :: .symbol "\x7b" :: tokens
      else
        (lexFrom fuel [] true found.2.2).map fun tokens =>
          .part (String.ofList found.1) false :: tokens := by
  rw [lexTail, lexText, readPart]
  cases lexPart (input.length + 1) input with
  | none => rfl
  | some found =>
    obtain ⟨content, more, rest⟩ := found
    cases more <;> rfl

theorem lexFrom_closeTail (fuel : Nat) (operand : Bool) (rest : List Char) :
    lexFrom (fuel + 1) [1] operand ('\x7d' :: rest) =
      (lexTail fuel rest).map (.symbol "\x7d" :: ·) := by
  rw [lexFrom_closeHole, lexTail]
  cases lexText [] rest with
  | none => rfl
  | some read => rw [Option.bind_some, Option.bind_some, Option.map_map]; rfl

theorem lexTail_prepend {input other text : List Char}
    (found : readPart input = (readPart other).map (prependPart text)) (fuel : Nat) :
    lexTail fuel input = (lexTail fuel other).map (prependTokens text) := by
  rw [lexTail_eq, lexTail_eq, found]
  cases readPart other with
  | none => rfl
  | some found =>
    obtain ⟨content, more, rest⟩ := found
    simp only [Option.map_some, Option.bind_some, prependPart]
    split
    · cases lexFrom fuel [1] false rest with
      | none => rfl
      | some tokens => simp [prependTokens, String.ofList_append]
    · cases lexFrom fuel [] true rest with
      | none => rfl
      | some tokens => simp [prependTokens, String.ofList_append]

/-- The tokens between back-ticks are those of the template as a script reads it. -/
theorem lexTail_source {template : Plain}
    (literals : ∀ literal ∈ template.literals, IsLiteral literal)
    (holes : ∀ hole ∈ template.holes, hole.IsPlain) (fuel : Nat)
    (enough : (doubleTicks template.source).length < fuel) :
    lexTail fuel (doubleTicks template.source ++ ['\x60']) = templateTokens? template.scripted := by
  induction template generalizing fuel with
  | last literal =>
    have plain := literals literal List.mem_cons_self
    have read := readPart_literal plain.opensNone plain.returnsNone
      (show StopsPart ['\x60'] by simp [StopsPart]) (fun _ opens => by simp at opens)
    rw [readPart_end] at read
    cases fuel with
    | zero => cases enough
    | succ fuel =>
      rw [Plain.source, lexTail_eq, read]
      simp [prependPart, Plain.scripted, templateTokens?, lexFrom]
  | more literal hole rest ih =>
    have plain := literals literal List.mem_cons_self
    have holePlain := holes hole List.mem_cons_self
    have others := ih (fun literal member => literals literal (List.mem_cons_of_mem _ member))
      (fun hole member => holes hole (List.mem_cons_of_mem _ member))
    have text : doubleTicks (Plain.more literal hole rest).source ++ ['\x60'] =
        doubleTicks literal ++ ('$' :: '\x7b' ::
          (hole.inner.toList ++ '\x7d' :: (doubleTicks rest.source ++ ['\x60']))) := by
      rw [Plain.source, doubleTicks_append, doubleTicks_token holePlain]
      simp
    have length := congrArg List.length text
    simp only [List.length_append, List.length_cons, List.length_nil] at length
    rw [text, Plain.scripted]
    cases escaped : escapes literal with
    | true =>
      rw [if_pos rfl, templateTokens?_prepend, ← others fuel (by omega)]
      exact lexTail_prepend (readPart_escaped plain escaped holePlain _) fuel
    | false =>
      have stopsPart : StopsPart ('$' :: '\x7b' ::
          (hole.inner.toList ++ '\x7d' :: (doubleTicks rest.source ++ ['\x60']))) := by
        simp [StopsPart]
      have read := readPart_literal plain.opensNone plain.returnsNone stopsPart
        (fun last => by rw [escapes, last] at escaped; cases escaped)
      rw [readPart_hole] at read
      have shorter := tokenCount_le holePlain
      obtain ⟨left, rfl⟩ : ∃ left, fuel = left + 1 + tokenCount hole :=
        ⟨fuel - 1 - tokenCount hole, by omega⟩
      have stops : StopsWord ('\x7d' :: (doubleTicks rest.source ++ ['\x60'])) := by
        intro char first
        cases first
        rfl
      rw [if_neg Bool.false_ne_true, templateTokens?, lexTail_eq, read]
      simp only [Option.map_some, Option.bind_some, prependPart, if_true, List.append_nil]
      rw [lexFrom_hole holePlain (left + 1) [1] stops, lexFrom_closeTail, others left (by omega)]
      cases holeTokens? hole with
      | none => rfl
      | some inner =>
        cases templateTokens? rest.scripted with
        | none => rfl
        | some tokens => simp

private theorem head?_source_ne_return {template : Plain}
    (literals : ∀ literal ∈ template.literals, IsLiteral literal) :
    template.source.head? ≠ some '\r' := by
  intro first
  cases template with
  | last literal =>
    exact (literals literal List.mem_cons_self).returnsNone (List.mem_of_mem_head? first)
  | more literal hole rest =>
    cases literal with
    | nil =>
      rw [Plain.source, Hole.token, toList_token] at first
      cases first
    | cons char literal =>
      exact (literals _ List.mem_cons_self).returnsNone (List.mem_of_mem_head? first)

theorem begins_of_doubleTicks {char : Char} (other : char ≠ '\x60')
    {text rest : List Char} (begins : doubleTicks text ++ ['\x60'] = char :: rest) :
    ∃ tail, text = char :: tail := by
  cases text with
  | nil => exact absurd (List.cons.inj begins).1.symm other
  | cons first tail =>
    by_cases tick : first = '\x60'
    · subst tick
      exact absurd (List.cons.inj begins).1.symm other
    · rw [doubleTicks_cons_of_ne tick, List.cons_append] at begins
      exact ⟨tail, by rw [(List.cons.inj begins).1]⟩

theorem dropLineBreak_doubleTicks (text : List Char) :
    dropLineBreak (doubleTicks text ++ ['\x60']) =
      doubleTicks (dropLineBreak text) ++ ['\x60'] := by
  fun_cases dropLineBreak text
  case case1 rest => rfl
  case case2 rest single =>
    rw [doubleTicks_cons_of_ne (by decide), List.cons_append, dropLineBreak]
    intro after begins
    obtain ⟨tail, rfl⟩ := begins_of_doubleTicks (by decide) begins
    exact single tail rfl
  case case3 rest => rfl
  case case4 noPair noReturn noFeed =>
    rw [dropLineBreak]
    · intro after begins
      obtain ⟨tail, rfl⟩ := begins_of_doubleTicks (by decide) begins
      exact noReturn tail rfl
    · intro after begins
      obtain ⟨tail, rfl⟩ := begins_of_doubleTicks (by decide) begins
      exact noReturn tail rfl
    · intro after begins
      obtain ⟨tail, rfl⟩ := begins_of_doubleTicks (by decide) begins
      exact noFeed tail rfl

theorem dropLineBreak_eq_self {text : List Char} (noBreak : text.head? ≠ some '\n')
    (noReturn : text.head? ≠ some '\r') : dropLineBreak text = text := by
  unfold dropLineBreak
  split
  next => exact absurd rfl noReturn
  next => exact absurd rfl noReturn
  next => exact absurd rfl noBreak
  next => rfl

/-- A template between back-ticks is read from behind a line break at its beginning. -/
theorem lex?_ticked (text : List Char) :
    lex? ('\x60' :: doubleTicks text ++ ['\x60']) =
      lexTail ((doubleTicks text ++ ['\x60']).length + 1)
        (doubleTicks (dropLineBreak text) ++ ['\x60']) := by
  rw [← dropLineBreak_doubleTicks]
  rfl

theorem lex?_doubleTicks {text : List Char} (noBreak : text.head? ≠ some '\n')
    (noReturn : text.head? ≠ some '\r') :
    lex? ('\x60' :: doubleTicks text ++ ['\x60']) =
      lexTail ((doubleTicks text ++ ['\x60']).length + 1) (doubleTicks text ++ ['\x60']) := by
  rw [lex?_ticked, dropLineBreak_eq_self noBreak noReturn]

theorem lex?_backTicks {template : Plain}
    (literals : ∀ literal ∈ template.literals, IsLiteral literal)
    (holes : ∀ hole ∈ template.holes, hole.IsPlain)
    (begins : template.source.head? ≠ some '\n') :
    lex? ('\x60' :: doubleTicks template.source ++ ['\x60']) =
      templateTokens? template.scripted := by
  rw [lex?_doubleTicks begins (head?_source_ne_return literals)]
  refine lexTail_source literals holes _ ?_
  rw [List.length_append]
  omega

theorem lex?_hole {hole : Hole} (plain : hole.IsPlain) :
    lex? hole.inner.toList = holeTokens? hole := by
  have bound := tokenCount_le plain
  have fuel : hole.inner.toList.length + 1 =
      (hole.inner.toList.length - tokenCount hole + 1) + tokenCount hole := by omega
  have read := lexFrom_hole plain (hole.inner.toList.length - tokenCount hole + 1) []
    stopsWord_nil
  rw [List.append_nil] at read
  rw [lex?, fuel, read]
  cases holeTokens? hole with
  | none => rfl
  | some tokens => simp [lexFrom]

end Script

end Recast
