import Recast.Proofs.ModeAgreement

set_option autoImplicit false

/-!
# Text without holes

A template without holes is a text. As a script it gives the same text, except for a line break at
its beginning and for carriage returns before its line feeds, which scripts do not read.
-/

namespace Recast

namespace Template

open Script (dropLineBreak)

/-- Line feeds without the carriage return before them. -/
def dropReturns : List Char → List Char
  | '\r' :: '\n' :: rest => '\n' :: dropReturns rest
  | char :: rest => char :: dropReturns rest
  | [] => []

/-- A text as scripts read it between back-ticks. -/
def scriptText (text : List Char) : List Char :=
  dropReturns (dropLineBreak text)

theorem dropReturns_sublist (text : List Char) : (dropReturns text).Sublist text := by
  fun_induction dropReturns text with
  | case1 rest ih => exact (ih.cons_cons '\n').cons '\r'
  | case2 char rest _ ih => exact ih.cons_cons char
  | case3 => exact List.Sublist.refl []

theorem dropLineBreak_suffix (text : List Char) : dropLineBreak text <:+ text := by
  fun_cases dropLineBreak text
  case case1 rest => exact List.suffix_append ['\r', '\n'] rest
  case case2 rest _ => exact List.suffix_cons '\r' rest
  case case3 rest => exact List.suffix_cons '\n' rest
  case case4 => exact List.suffix_rfl

theorem scriptText_sublist (text : List Char) : (scriptText text).Sublist text :=
  (dropReturns_sublist _).trans (dropLineBreak_suffix text).sublist

theorem dropReturns_eq_self_iff (text : List Char) :
    dropReturns text = text ↔ ¬ ['\r', '\n'] <:+: text := by
  fun_induction dropReturns text with
  | case1 rest ih =>
    have within : ['\r', '\n'] <:+: '\r' :: '\n' :: rest :=
      (List.prefix_append ['\r', '\n'] rest).isInfix
    refine iff_of_false (fun same => ?_) (fun none => none within)
    cases (List.cons.inj same).1
  | case2 char rest single ih =>
    have front : ¬ ['\r', '\n'] <+: char :: rest := by
      rintro ⟨after, same⟩
      obtain ⟨rfl, rfl⟩ := List.cons.inj same
      exact single after rfl rfl
    rw [List.cons_inj_right, ih, List.infix_cons_iff, or_iff_right front]
  | case3 => exact iff_of_true rfl (by simp)

theorem dropLineBreak_eq_self_iff (text : List Char) :
    dropLineBreak text = text ↔ text.head? ≠ some '\n' ∧ text.head? ≠ some '\r' := by
  constructor
  · intro same
    have shorter : ∀ char rest, text = char :: rest → dropLineBreak text <:+ rest → False := by
      intro char rest written within
      have length := within.length_le
      rw [same, written, List.length_cons] at length
      exact Nat.not_succ_le_self _ length
    cases text with
    | nil => exact ⟨nofun, nofun⟩
    | cons char rest =>
      constructor
      · intro first
        cases first
        exact shorter '\n' rest rfl List.suffix_rfl
      · intro first
        cases first
        refine shorter '\r' rest rfl ?_
        cases rest with
        | nil => exact List.suffix_rfl
        | cons next rest =>
          by_cases feed : next = '\n'
          · subst feed
            exact List.suffix_cons '\n' rest
          · simp [dropLineBreak, feed]
  · rintro ⟨noBreak, noReturn⟩
    exact Script.dropLineBreak_eq_self noBreak noReturn

/-- Scripts read a text as it is if it begins with no line break and no carriage return stands
before a line feed. -/
theorem scriptText_eq_self_iff (text : List Char) :
    scriptText text = text ↔
      (text.head? ≠ some '\n' ∧ text.head? ≠ some '\r') ∧ ¬ ['\r', '\n'] <:+: text := by
  rw [← dropLineBreak_eq_self_iff, ← dropReturns_eq_self_iff, scriptText]
  constructor
  · intro same
    have whole : dropLineBreak text = text := by
      have within := (dropReturns_sublist (dropLineBreak text)).length_le
      rw [same] at within
      exact (dropLineBreak_suffix text).eq_of_length_le within
    rw [whole] at same
    exact ⟨whole, same⟩
  · rintro ⟨whole, same⟩
    rw [whole, same]

end Template

namespace Script

open Template

/-! ## Reading -/

theorem readPart_return (rest : List Char) :
    readPart ('\r' :: '\n' :: rest) = (readPart rest).map (prependPart ['\n']) := by
  rw [readPart, List.length_cons, lexPart]
  dsimp only
  rw [lexPart_eq_readPart (by simp)]
  rfl

theorem readPart_loneReturn {rest : List Char} (single : rest.head? ≠ some '\n') :
    readPart ('\r' :: rest) = (readPart rest).map (prependPart ['\r']) := by
  rw [readPart, List.length_cons, lexPart]
  · dsimp only
    rw [lexPart_eq_readPart (Nat.lt_succ_self _)]
    rfl
  · rintro ⟨⟩
  · rintro _ ⟨⟩
  · rintro _ ⟨⟩
  · rintro _ ⟨⟩
  · rintro after - rfl
    exact single rfl

/-- A text that opens no hole is read to its end, with its back-ticks single again. -/
theorem readPart_text {text : List Char} (opensNone : ¬ ['$', '\x7b'] <:+: text) :
    readPart (doubleTicks text ++ ['\x60']) = some (dropReturns text, false, []) := by
  fun_induction dropReturns text with
  | case1 rest ih =>
    have others := ih fun within =>
      opensNone (within.trans (List.suffix_append ['\r', '\n'] rest).isInfix)
    rw [doubleTicks_cons_of_ne (by decide), doubleTicks_cons_of_ne (by decide), List.cons_append,
      List.cons_append, readPart_return, others]
    rfl
  | case2 char rest single ih =>
    have others := ih fun within => opensNone (within.trans (List.suffix_cons char rest).isInfix)
    by_cases tick : char = '\x60'
    · subst tick
      have step := readPart_tick (doubleTicks rest ++ ['\x60'])
      rw [others] at step
      exact step
    by_cases carriage : char = '\r'
    · subst carriage
      have noFeed : (doubleTicks rest ++ ['\x60']).head? ≠ some '\n' := by
        intro first
        obtain ⟨after, begins⟩ := List.head?_eq_some_iff.mp first
        obtain ⟨tail, rfl⟩ := begins_of_doubleTicks (by decide) begins
        exact single tail rfl rfl
      rw [doubleTicks_cons_of_ne tick, List.cons_append, readPart_loneReturn noFeed, others]
      rfl
    · have stops : StopsPart ['\x60'] := by simp [StopsPart]
      have noHole := opensNone_doubleTicks opensNone stops
      rw [doubleTicks_cons_of_ne tick, List.cons_append] at noHole ⊢
      have noEscape : ¬ ['\\', '$', '\x7b'] <+: char :: (doubleTicks rest ++ ['\x60']) := by
        intro front
        obtain ⟨-, opens⟩ := List.cons_prefix_cons.mp front
        cases rest with
        | nil => simp [doubleTicks] at opens
        | cons next rest =>
          refine opensNone_doubleTicks (fun within => ?_) stops opens
          exact opensNone (within.trans (List.suffix_cons char _).isInfix)
      rw [readPart_char tick noHole noEscape carriage, others]
      rfl
  | case3 => exact readPart_end

theorem lex?_text {text : List Char} (opensNone : ¬ ['$', '\x7b'] <:+: text) :
    lex? ('\x60' :: doubleTicks text ++ ['\x60']) =
      some [.part (String.ofList (scriptText text)) false] := by
  have read := readPart_text fun within =>
    opensNone (within.trans (dropLineBreak_suffix text).isInfix)
  rw [lex?_ticked, lexTail_eq, read]
  rfl

theorem compile?_text {text : List Char} (opensNone : ¬ ['$', '\x7b'] <:+: text)
    (typecast : Bool) :
    compile? (String.ofList (rewrite typecast text)) =
      some ⟨.constant (.text (String.ofList (scriptText text))), []⟩ := by
  have script : rewrite typecast text = '\x60' :: doubleTicks text ++ ['\x60'] := by
    have single : (if typecast then singleHole? text else none) = none := by
      cases typecast with
      | false => rfl
      | true =>
        cases text with
        | nil => rfl
        | cons char rest =>
          rw [if_pos rfl, ← List.append_nil (char :: rest)]
          exact singleHole?_literal opensNone (List.cons_ne_nil char rest) (by simp)
    rw [rewrite, single]
  have parsed : parse? [.part (String.ofList (scriptText text)) false] =
      some ⟨.constant (.text (String.ofList (scriptText text))), []⟩ :=
    @parse?_templateTokens (.last (scriptText text))
      (fun _ member => absurd member List.not_mem_nil) _ rfl
  rw [compile?, script, String.toList_ofList, lex?_text opensNone]
  dsimp only [bind, Option.bind]
  rw [parsed]
  rfl

end Script

open Template (scriptText)

/-- A template without holes, of a size that scripts allow, always gives a text, and that text is
the template itself exactly if it begins with no line break and no carriage return in it stands
before a line feed. -/
theorem expand_text_without_holes [Host] {event : Event} {source : String}
    (inRange : Calendar.isInRange event.time = true)
    (opensNone : ¬ ['$', '\x7b'] <:+: source.toList)
    (fits : source.utf8ByteSize ≤ Script.maxTextBytes) (hostname : String) (typecast : Bool) :
    ∃ content, (⟨.expression, hostname, typecast⟩ : Settings).expand event source =
        .ok (.text content) ∧
      content.toList = scriptText source.toList ∧ content.utf8ByteSize ≤ Script.maxTextBytes ∧
      (content = source ↔ (source.toList.head? ≠ some '\n' ∧ source.toList.head? ≠ some '\r') ∧
        ¬ ['\r', '\n'] <:+: source.toList) := by
  have compiled := Script.compile?_text opensNone typecast
  refine ⟨String.ofList (scriptText source.toList), ?_, String.toList_ofList, ?_, ?_⟩
  · rw [Settings.expand_of_compile? inRange compiled]
    rfl
  · have within := String.utf8Len_le_of_sublist (Template.scriptText_sublist source.toList)
    rw [← String.utf8ByteSize_ofList, ← String.utf8ByteSize_ofList, String.ofList_toList] at within
    exact within.trans fits
  · rw [← Template.scriptText_eq_self_iff, ← String.toList_inj, String.toList_ofList]

/-- Back-ticks, backslashes, dollar signs and braces stay as they are, but not the line break at the
beginning. -/
theorem expand_text_without_holes_ticked :
    let event : Event := ⟨"a", 0, []⟩
    let settings : Settings := ⟨.expression, "h", true⟩
    settings.expand event "\x60\\$\r\x60\x60 \x7b\"\n\x7d" =
        .ok (.text "\x60\\$\r\x60\x60 \x7b\"\n\x7d") ∧
      settings.expand event "\nabc" = .ok (.text "abc") := by
  intro event settings
  have inRange : Calendar.isInRange event.time = true := by decide
  constructor
  · obtain ⟨content, outcome, -, -, same⟩ := @expand_text_without_holes Host.still event
      "\x60\\$\r\x60\x60 \x7b\"\n\x7d" inRange (by decide) (by decide) "h" true
    rw [same.mpr (by decide)] at outcome
    exact outcome
  · obtain ⟨content, outcome, read, -, -⟩ := @expand_text_without_holes Host.still event
      "\nabc" inRange (by decide) (by decide) "h" true
    rw [← String.ofList_toList (s := content), read] at outcome
    exact outcome

end Recast
