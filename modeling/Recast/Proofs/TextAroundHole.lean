import Recast.Proofs.FieldCopies
import Recast.Proofs.NestedParsing
import Recast.Proofs.NestedTokens
import Recast.Proofs.ShownValues

set_option autoImplicit false

/-!
# Text around a hole

An expression that has a value as a single hole has the same value with text around its hole, a few
operations later. The text then shows it as JSON does, unless the two are known to differ. An
expression that ends the whole script has no text around it.
-/

namespace Recast

namespace Template

/-- An expression whose own braces make a single hole, without back-ticks, comments and raw texts
that are not balanced. -/
structure IsExpression (inner : List Char) : Prop where
  single : singleHole? ('$' :: '\x7b' :: (inner ++ ['\x7d'])) = some inner
  ticksNone : '\x60' ∉ inner
  plain : plainOutside .outside inner = true

variable {front inner text : List Char}

theorem IsExpression.closed (expression : IsExpression inner) :
    closeHole? (inner ++ ['\x7d']) = some (inner, []) := by
  have single := expression.single
  rw [singleHole?] at single
  split at single
  next found closed =>
    split at single
    next => cases single
    next => rw [closed, Option.some.inj single]
  next => cases single

theorem IsExpression.isInner (expression : IsExpression inner) : IsInner 0 .outside inner :=
  ⟨expression.closed, expression.plain, expression.ticksNone⟩

theorem closeFrom?_append {depth : Nat} {scan : Scan} {body found rest : List Char}
    (closed : closeFrom? depth scan body = some (found, rest)) (more : List Char) :
    closeFrom? depth scan (body ++ more) = some (found, rest ++ more) := by
  induction body generalizing depth scan found with
  | nil => cases closed
  | cons char body ih =>
    -- Every way to go on reads one character and scans the rest.
    have next : ∀ {depth : Nat} {scan : Scan} {found : List Char},
        ((closeFrom? depth scan body).map fun found => (char :: found.1, found.2)) =
            some (found, rest) →
          ((closeFrom? depth scan (body ++ more)).map fun found => (char :: found.1, found.2)) =
            some (found, rest ++ more) := by
      intro depth scan found closed
      obtain ⟨⟨inner, left⟩, inside, same⟩ := Option.map_eq_some_iff.mp closed
      cases same
      rw [ih inside]
      rfl
    rw [List.cons_append]
    unfold closeFrom? at closed ⊢
    dsimp only at closed ⊢
    cases scan with
    | escaped quote => exact next closed
    | quoted quote => exact next closed
    | outside =>
      dsimp only at closed ⊢
      split at closed
      next quotes => rw [if_pos quotes]; exact next closed
      next plain =>
        rw [if_neg plain]
        split at closed
        next opening => rw [if_pos opening]; exact next closed
        next other =>
          rw [if_neg other]
          split at closed
          next closing =>
            rw [if_pos closing]
            cases depth with
            | zero => cases closed; rfl
            | succ depth => exact next closed
          next calm => rw [if_neg calm]; exact next closed

/-- A hole with text around it is no single hole. -/
theorem singleHole?_around (expression : IsExpression inner) (before : IsAround front)
    (filled : front ≠ [] ∨ text ≠ []) : singleHole? (around front inner text) = none := by
  cases front with
  | cons char front =>
    exact singleHole?_literal before.opensNone (List.cons_ne_nil char front) (by simp)
  | nil =>
    have closed := closeFrom?_append expression.closed text
    rw [List.append_assoc, List.nil_append, List.singleton_append] at closed
    cases text with
    | nil => simp at filled
    | cons char text => rw [around, List.nil_append, singleHole?, closeHole?, closed]

theorem rewrite_around (expression : IsExpression inner) (before : IsAround front)
    (filled : front ≠ [] ∨ text ≠ []) (typecast : Bool) :
    rewrite typecast (around front inner text) =
      '\x60' :: doubleTicks (around front inner text) ++ ['\x60'] := by
  have single : (if typecast then singleHole? (around front inner text) else none) = none := by
    rw [singleHole?_around expression before filled]
    cases typecast <;> rfl
  rw [rewrite, single]

end Template

namespace Script

open Template (IsAround IsExpression around)

/-! ## Parsing -/

/-- The expression stays within the limit of nesting as many levels deeper. -/
def nestsAt (level : Nat) (inner : List Char) : Bool :=
  (lex? inner).any fun tokens =>
    (parseExpr (16 * tokens.length + 64) .hole level ⟨tokens, []⟩).isSome

/-- The segment of a hole. An empty text is none. -/
def holeSegment (body : Expr) : List Expr :=
  if isEmptyText body then [] else [body]

variable {front text : List Char} {tokens : List Token} {script : Compiled}

theorem filter_literalSegment (literal : List Char) :
    (literalSegment literal).filter (fun segment => !isEmptyText segment) =
      literalSegment literal := by
  unfold literalSegment
  split
  next => rfl
  next filled => simp [isEmptyText, isEmpty_ofList, filled]

/-- An expression that can stand three levels deeper is read alike alone and in a hole. -/
theorem parseExpr_before (parsed : parse? tokens = some script)
    (nested : (parseExpr (16 * tokens.length + 64) .hole 3 ⟨tokens, []⟩).isSome) :
    tokens.getLast? ≠ some (.symbol ".") ∧
      ∀ fuel rest, 16 * tokens.length + 64 ≤ fuel →
        parseExpr fuel .hole 3 ⟨tokens ++ .symbol "\x7d" :: rest, []⟩ =
          some (script.body, ⟨.symbol "\x7d" :: rest, script.functions⟩) := by
  obtain ⟨⟨body, rest, functions⟩, read⟩ := Option.isSome_iff_exists.mp nested
  -- At the outermost level the same is read, and that was all of the tokens.
  have closes : ClosesHole [] := by
    intro token first
    cases first
  have outer := ((nests closes (Nat.le_refl _)).expr .hole (Nat.zero_le 3) tokens _ _ _ _ read).2
  rw [List.append_nil, List.append_nil] at outer
  rw [parse?] at parsed
  simp only [outer, Option.bind_eq_bind, Option.bind_some] at parsed
  split at parsed
  next finished =>
    cases parsed
    obtain rfl := List.isEmpty_iff.mp finished
    have before : ∀ fuel after, 16 * tokens.length + 64 ≤ fuel →
        Leaves tokens [] ∧ parseExpr fuel .hole 3 ⟨tokens ++ .symbol "\x7d" :: after, []⟩ =
          some (body, ⟨[] ++ .symbol "\x7d" :: after, functions⟩) := by
      intro fuel after enough
      have closesHole : ClosesHole (.symbol "\x7d" :: after) :=
        fun token first => (Option.some.inj first).symm
      exact (nests closesHole enough).expr .hole (Nat.le_refl 3) tokens _ _ _ _ read
    exact ⟨(before _ [] (Nat.le_refl _)).1.2 rfl, fun fuel after enough =>
      (before fuel after enough).2⟩
  next => cases parsed

theorem parseBlock_around (parsed : parse? tokens = some script)
    (nested : (parseExpr (16 * tokens.length + 64) .hole 3 ⟨tokens, []⟩).isSome) {fuel : Nat}
    (enough : 16 * tokens.length + 64 ≤ fuel) (rest : List Token) :
    parseBlock (fuel + 2) .hole 2 ⟨.symbol "\x7b" :: (tokens ++ .symbol "\x7d" :: rest), []⟩ =
      some (script.body, ⟨rest, script.functions⟩) := by
  have body : parseExpr fuel .hole 3 ⟨tokens ++ .symbol "\x7d" :: rest, []⟩ =
      (some script.body).map (·, ⟨.symbol "\x7d" :: rest, script.functions⟩) :=
    (parseExpr_before parsed nested).2 fuel rest enough
  exact parseBlock_expr (by decide) body

/-- A text around a hole has the hole's expression between its two literals. -/
def exprAround (front text : List Char) (body : Expr) : Expr :=
  .joined (literalSegment front ++ (holeSegment body ++ literalSegment text))

theorem parseSegments_around (parsed : parse? tokens = some script)
    (nested : (parseExpr (16 * tokens.length + 64) .hole 3 ⟨tokens, []⟩).isSome) {fuel : Nat}
    (enough : 16 * tokens.length + 64 ≤ fuel) (text : List Char) :
    parseSegments (fuel + 3) .hole 2 ⟨.symbol "\x7b" ::
        (tokens ++ [.symbol "\x7d", .part (String.ofList text) false]), []⟩ =
      some (script.body :: literalSegment text, ⟨[], script.functions⟩) := by
  have block : parseBlock (fuel + 2) .hole 2 ⟨.symbol "\x7b" ::
        (tokens ++ [.symbol "\x7d", .part (String.ofList text) false]), []⟩ =
      (some script.body).map (·, ⟨[.part (String.ofList text) false], script.functions⟩) :=
    parseBlock_around parsed nested enough _
  rw [parseSegments_step block]
  simp [pure, StateT.pure]

theorem parse?_around (parsed : parse? tokens = some script)
    (nested : (parseExpr (16 * tokens.length + 64) .hole 3 ⟨tokens, []⟩).isSome)
    (filled : front ≠ [] ∨ text ≠ []) :
    parse? (tokensAround front text tokens) =
      some ⟨exprAround front text script.body, script.functions⟩ := by
  have kept : (script.body :: literalSegment text).filter (fun segment => !isEmptyText segment) =
      holeSegment script.body ++ literalSegment text := by
    rw [List.filter_cons, filter_literalSegment, holeSegment]
    cases isEmptyText script.body <;> rfl
  have whole : joinedExpr (literalSegment front ++ (holeSegment script.body ++
      literalSegment text)) = exprAround front text script.body := by
    rw [joinedExpr, if_neg, exprAround]
    rcases filled with filled | filled <;> simp [literalSegment, filled]
  have read : parse? (tokensAround front text tokens) =
      (some (exprAround front text script.body)).map (⟨·, script.functions⟩) := by
    apply parse?_part
    intro fuel enough
    obtain ⟨fuel, rfl⟩ : ∃ left, fuel = left + 3 := ⟨fuel - 3, by omega⟩
    rw [List.length_cons, List.length_append, List.length_cons] at enough
    have segments : parseSegments (fuel + 3) .hole 2 ⟨.symbol "\x7b" ::
          (tokens ++ [.symbol "\x7d", .part (String.ofList text) false]), []⟩ =
        (some (script.body :: literalSegment text)).map (·, ⟨[], script.functions⟩) :=
      parseSegments_around parsed nested (by omega) text
    rw [parsePrimary_parts front (by decide) segments, Option.map_some, kept, whole]
  exact read

/-! ## Folding -/

/-- Whether the value of a script is known when it is compiled. -/
def isKnown (script : Compiled) : Bool :=
  script.body.constant?.isSome

/-- A text around a hole after folding: a hole that is known joins its literals. -/
def foldedAround (front text : List Char) (body : Expr) : Expr :=
  match body.constant? with
  | some value =>
    .constant (.text (String.ofList front ++ (value.constantText ++ String.ofList text)))
  | none => .joined (literalSegment front ++ body :: literalSegment text)

theorem foldAll_append (left right : List Expr) :
    foldAll (left ++ right) = foldAll left ++ foldAll right := by
  induction left with
  | nil => rfl
  | cons item left ih => rw [List.cons_append, foldAll, ih]; rfl

theorem foldAll_literalSegment (literal : List Char) :
    foldAll (literalSegment literal) = literalSegment literal := by
  unfold literalSegment
  split
  next => rfl
  next => rfl

theorem constants?_append {left right : List Expr} {first second : List Value}
    (before : constants? left = some first) (after : constants? right = some second) :
    constants? (left ++ right) = some (first ++ second) := by
  unfold constants? at before after ⊢
  rw [List.mapM_append, before, after]
  rfl

theorem constants?_literalSegment (literal : List Char) :
    ∃ values, constants? (literalSegment literal) = some values ∧
      String.join (values.map Value.constantText) = String.ofList literal := by
  unfold literalSegment
  split
  next empty =>
    refine ⟨[], rfl, ?_⟩
    rw [List.isEmpty_iff.mp empty]
    rfl
  next => exact ⟨[.text (String.ofList literal)], rfl, by simp [Value.constantText, Value.printed]⟩

theorem foldJoined_known (front text : List Char) {hole : List Expr} {values : List Value}
    (known : constants? hole = some values) :
    foldJoined (literalSegment front ++ (hole ++ literalSegment text)) =
      .constant (.text (String.ofList front ++
        (String.join (values.map Value.constantText) ++ String.ofList text))) := by
  obtain ⟨first, before, frontText⟩ := constants?_literalSegment front
  obtain ⟨last, after, lastText⟩ := constants?_literalSegment text
  rw [foldJoined, constants?_append before (constants?_append known after)]
  simp [frontText, lastText, String.join_append]

theorem constants?_unknown {body : Expr} (unknown : body.constant? = none)
    (front text : List Char) :
    constants? (literalSegment front ++ body :: literalSegment text) = none :=
  constants?_eq_none (List.mem_append_right _ List.mem_cons_self) unknown

theorem mergeSegments_unknown {body : Expr} (unknown : body.constant? = none)
    (front text : List Char) :
    mergeSegments (literalSegment front ++ body :: literalSegment text) =
      literalSegment front ++ body :: literalSegment text := by
  have last : mergeSegments (literalSegment text) = literalSegment text := by
    unfold literalSegment
    split <;> rfl
  have hole : mergeSegments (body :: literalSegment text) = body :: literalSegment text := by
    have other : ∀ value, body ≠ .constant value := by
      rintro value rfl
      cases unknown
    rw [mergeSegments, last]
    · exact other .unit
    · exact fun left _ _ same _ => other (.text left) same
  unfold literalSegment at hole ⊢
  cases front.isEmpty with
  | true => exact hole
  | false =>
    rw [if_neg Bool.false_ne_true, List.singleton_append, mergeSegments.eq_def]
    dsimp only
    rw [hole]
    cases body with
    | constant value => cases unknown
    | _ => rfl

theorem eq_text_of_isEmptyText {body : Expr} (empty : isEmptyText body = true) :
    body = .constant (.text "") := by
  unfold isEmptyText at empty
  split at empty
  next content => rw [String.isEmpty_iff.mp empty]
  next => cases empty

theorem fold_exprAround (front text : List Char) (body : Expr) :
    (exprAround front text body).fold = foldedAround front text body.fold := by
  rw [exprAround, Expr.fold, foldAll_append, foldAll_append, foldAll_literalSegment,
    foldAll_literalSegment, holeSegment, foldedAround]
  cases empty : isEmptyText body with
  | true =>
    obtain rfl := eq_text_of_isEmptyText empty
    have nothing : constants? [] = some [] := rfl
    exact foldJoined_known front text nothing
  | false =>
    cases known : body.fold.constant? with
    | some value =>
      have folded : constants? (foldAll [body]) = some [value] := by
        rw [foldAll, foldAll, constants?, List.mapM_cons, known]
        rfl
      rw [if_neg Bool.false_ne_true, foldJoined_known front text folded]
      simp
    | none =>
      have folded : foldAll [body] ++ literalSegment text = body.fold :: literalSegment text := rfl
      rw [if_neg Bool.false_ne_true, folded, foldJoined, constants?_unknown known]
      exact congrArg Expr.joined (mergeSegments_unknown known front text)

/-! ## Evaluating -/

/-- The text around the hole of a value. -/
def textAround (front text : List Char) (shown : String) : String :=
  String.ofList front ++ (shown ++ String.ofList text)

/-- A text that is known beforehand may have any size. -/
def withinLimit (script : Compiled) (content : String) : Bool :=
  isKnown script || decide (content.utf8ByteSize ≤ maxTextBytes)

/-- What a text around a hole comes to, from what the script of the hole comes to. -/
def outcomeAround (front text : List Char) (script : Compiled) :
    Except Stop Value → Except Fault Value
  | .error stop => stop.outcome
  | .ok value =>
    let shown := textAround front text (value.shown (isKnown script))
    if withinLimit script shown then .ok (.text shown) else .error .textTooLong

variable {known : Bindings} {answers : Answers} {outcome : Except Stop Value} {ended : Memory}

theorem eq_constant_of_constant? {body : Expr} {value : Value}
    (same : body.constant? = some value) : body = .constant value := by
  unfold Expr.constant? at same
  split at same
  next => rw [Option.some.inj same]
  next => cases same

theorem evaluate_constant (known : Bindings) (answers : Answers) (value : Value)
    (functions : List Function) :
    ∃ ended, (⟨.constant value, functions⟩ : Compiled).evaluate answers ⟨known, false, .none⟩ =
      (.ok value, ended) ∧ ended.operations = 2 :=
  Yields.evaluate (evalExpr_constant .unit value).counting (by decide)

theorem boundedText_eq (content : String) :
    boundedText content =
      if content.utf8ByteSize ≤ maxTextBytes then .ok (.text content) else .error .textTooLong := by
  rw [boundedText]
  by_cases fits : content.utf8ByteSize ≤ maxTextBytes
  · rw [if_pos fits, if_neg (Nat.not_lt.mpr fits)]
  · rw [if_neg fits, if_pos (Nat.not_le.mp fits)]

/-- The segments of a text around a hole write its literals around what the hole prints. -/
theorem writes_around {machine : Machine} {before : Memory} {body : Expr} {count : Nat}
    (unknown : body.constant? = none) (front text : List Char)
    (gives : Gives before count (evalExpr machine .unit body) outcome ended) :
    ∃ total, total ≤ (literalSegment front).length + (literalSegment text).length + count ∧
      Writes machine before total (literalSegment front ++ body :: literalSegment text)
        (outcome.map fun value => textAround front text value.printed) := by
  cases outcome with
  | error stop =>
    exact ⟨_, Nat.add_le_add_right (Nat.le_add_right _ _) count,
      .literal front (.stop (literalSegment text) unknown gives)⟩
  | ok value =>
    have nothing : Writes machine ended 0 [] (.ok "") := .nil ended
    have last := nothing.literal text
    rw [List.append_nil] at last
    have whole := (Writes.hole unknown gives last).literal front
    exact ⟨(literalSegment front).length + (count + ((literalSegment text).length + 0)), by omega,
      by simpa [Except.map, textAround] using whole⟩

/-- A text around a hole shows the value of the hole. -/
theorem run_foldedAround (front text : List Char)
    (ran : script.evaluate answers ⟨known, false, .none⟩ = (outcome, ended))
    (room : ended.operations + 3 ≤ maxOperations) :
    ((⟨foldedAround front text script.body, script.functions⟩ : Compiled).run answers known).1 =
      outcomeAround front text script outcome := by
  have beforeShort := length_literalSegment_le front
  have afterShort := length_literalSegment_le text
  cases body : script.body.constant? with
  | some constant =>
    have isKnown : isKnown script = true := by rw [isKnown, body]; rfl
    obtain ⟨whole, functions⟩ := script
    obtain rfl : whole = .constant constant := eq_constant_of_constant? body
    obtain ⟨_, alone, _⟩ := evaluate_constant known answers constant functions
    cases alone.symm.trans ran
    rw [Compiled.run_eq, foldedAround, body]
    dsimp only
    obtain ⟨_, whole, _⟩ := evaluate_constant known answers
      (.text (String.ofList front ++ (constant.constantText ++ String.ofList text))) functions
    rw [whole, outcomeAround, withinLimit, isKnown]
    rfl
  | none =>
    have unknown : isKnown script = false := by rw [isKnown, body]; rfl
    obtain ⟨count, taken, gives⟩ := Compiled.body_gives ran (by omega)
    obtain ⟨total, few, writes⟩ := writes_around body front text gives
    rw [foldedAround, body]
    dsimp only
    rw [writes.run (by omega)]
    cases outcome with
    | error stop => rfl
    | ok value =>
      have written : writtenOutcome (Except.map (fun value =>
          textAround front text value.printed) (.ok value)) =
            boundedText (textAround front text value.printed) := rfl
      rw [written, boundedText_eq, outcomeAround, withinLimit, unknown]
      simp [Value.shown]

/-! ## Compiling -/

/-- An expression with text around its hole. The text before the hole neither begins with a line
feed nor ends in a backslash, which would hide the hole, and the expression has room three levels
deeper than it stands alone. -/
structure FitsAround (front inner text : List Char) : Prop where
  expression : IsExpression inner
  before : IsAround front
  after : IsAround text
  filled : front ≠ [] ∨ text ≠ []
  unescaped : front.getLast? ≠ some '\\'
  begins : front.head? ≠ some '\n'
  nested : nestsAt 3 inner = true

theorem compile?_around {inner : List Char} (fits : FitsAround front inner text)
    (compiled : compile? (String.ofList inner) = some script) (typecast : Bool) :
    compile? (String.ofList (Template.rewrite typecast (around front inner text))) =
      some ⟨foldedAround front text script.body, script.functions⟩ := by
  obtain ⟨tokens, read, compiled⟩ := Option.bind_eq_some_iff.mp compiled
  obtain ⟨parsed, parses, compiled⟩ := Option.bind_eq_some_iff.mp compiled
  rw [String.toList_ofList] at read
  have nested : (parseExpr (16 * tokens.length + 64) .hole 3 ⟨tokens, []⟩).isSome := by
    have nested := fits.nested
    rw [nestsAt, read] at nested
    exact nested
  have whole := lex?_around fits.before fits.after fits.unescaped fits.begins
    fits.expression.isInner read (parseExpr_before parses nested).1
  have folded : script = parsed.fold := (Option.some.inj compiled).symm
  rw [Template.rewrite_around fits.expression fits.before fits.filled, compile?,
    String.toList_ofList, whole, Option.bind_eq_bind, Option.bind_some,
    parse?_around parses nested fits.filled, Option.bind_eq_bind, Option.bind_some, folded,
    Compiled.fold, fold_exprAround]
  rfl

end Script

open Template (around)
open Script (isKnown textAround withinLimit)

theorem textAround_ne {front text : List Char} (filled : front ≠ [] ∨ text ≠ [])
    (content : String) :
    textAround front text content ≠ content := by
  intro same
  have lengths := congrArg String.length same
  simp only [textAround, String.length_append, String.length_ofList] at lengths
  rcases filled with filled | filled
  · have some := List.length_pos_iff.mpr filled
    omega
  · have some := List.length_pos_iff.mpr filled
    omega

namespace Script

/-- The tokens of an array of two numbers. -/
private theorem lex?_pair : lex? ['[', '1', ',', ' ', '2', ']'] =
    some [.symbol "[", .int 1, .symbol ",", .int 2, .symbol "]"] := by
  have comma : lexOne [] true ',' [' ', '2', ']'] =
      some ⟨[.symbol ","], [], false, [' ', '2', ']']⟩ := by
    simp [lexOne, isNameStart, lexSign, notIn?, leading?, deadSymbols, symbols, Text.afterStart?,
      Reading.single, Token.endsOperand, Text.isBlank]
  have first : lexOne [] false '1' [',', ' ', '2', ']'] =
      some ⟨[.int 1], [], true, [',', ' ', '2', ']']⟩ := rfl
  have blank : lexOne [] false ' ' ['2', ']'] = some ⟨[], [], false, ['2', ']']⟩ := rfl
  have second : lexOne [] false '2' [']'] = some ⟨[.int 2], [], true, [']']⟩ := rfl
  have fuel : lex? ['[', '1', ',', ' ', '2', ']'] =
      lexFrom 7 [] false ['[', '1', ',', ' ', '2', ']'] := rfl
  rw [fuel, lexFrom_openBracket, lexFrom_cons, first, Option.bind_some, lexFrom_cons, comma,
    Option.bind_some, lexFrom_cons, blank, Option.bind_some, lexFrom_cons, second,
    Option.bind_some, lexFrom_closeBracket]
  rfl

private theorem compile?_pair : compile? "[1, 2]" =
    some ⟨.constant (.array [.int 1, .int 2]), []⟩ := by
  have read : parse? [.symbol "[", .int 1, .symbol ",", .int 2, .symbol "]"] =
      some ⟨.array [.constant (.int 1), .constant (.int 2)], []⟩ := by cbv
  have letters : "[1, 2]".toList = ['[', '1', ',', ' ', '2', ']'] := rfl
  rw [compile?, letters, lex?_pair, Option.bind_eq_bind, Option.bind_some, read]
  rfl

private theorem fitsAround_pair : FitsAround ['x'] ['[', '1', ',', ' ', '2', ']'] [] where
  expression := ⟨by decide, by decide, by decide⟩
  before := ⟨by decide, by decide⟩
  after := ⟨by decide, by decide⟩
  filled := Or.inl (by decide)
  unescaped := by decide
  begins := by decide
  nested := by
    rw [nestsAt, lex?_pair]
    cbv

private theorem isVariable_a : IsVariable "a" :=
  ⟨by simp [isNamePart], by cbv⟩

private theorem fitsAround_a : FitsAround ['x'] ['a'] [] where
  expression := ⟨by decide, by decide, by decide⟩
  before := ⟨by decide, by decide⟩
  after := ⟨by decide, by decide⟩
  filled := Or.inl (by decide)
  unescaped := by decide
  begins := by decide
  nested := by
    have read : lex? ['a'] = some [.name "a"] := lex?_variable isVariable_a
    rw [nestsAt, read]
    cbv

end Script

end Recast
