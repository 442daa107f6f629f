import Recast.Proofs.BalancedHoles
import Recast.Proofs.TextAroundHole

set_option autoImplicit false

/-!
# Holes in larger text

A template is its literals and the expressions between them, in one way only. As a text between
back-ticks it has all of its back-ticks doubled, those of its expressions as well, so an expression
stays what it is if it has none. Such a text shows the values that its expressions have.
-/

namespace Recast

namespace Template

namespace Woven

/-- The text of a template with other texts in place of its expressions. -/
def fill : Woven → List String → String
  | .last literal, _ => String.ofList literal
  | .more literal _ rest, shown :: others => String.ofList literal ++ (shown ++ rest.fill others)
  | .more literal _ _, [] => String.ofList literal

theorem length_render_le (template : Woven) :
    (template.render doubleTicks id).length ≤ (template.render doubleTicks doubleTicks).length := by
  induction template with
  | last literal => exact Nat.le_refl _
  | more literal inner rest ih =>
    have within := Script.length_le_doubleTicks inner
    simp only [render, List.length_append, List.length_cons, id_eq]
    omega

/-- Back-ticks are doubled in literals only if the expressions have none. -/
theorem render_eq_iff (template : Woven) :
    template.render doubleTicks doubleTicks = template.render doubleTicks id ↔
      ∀ inner ∈ template.inners, '\x60' ∉ inner := by
  induction template with
  | last literal => exact iff_of_true rfl fun inner member => absurd member List.not_mem_nil
  | more literal inner rest ih =>
    rw [render, render, inners, List.forall_mem_cons, ← ih, ← Script.doubleTicks_eq_self_iff,
      List.append_cancel_left_eq, List.cons_inj_right, List.cons_inj_right, id_eq]
    constructor
    · intro same
      -- Neither part can have become shorter, so both are as long as before.
      have whole := congrArg List.length same
      have first := Script.length_le_doubleTicks inner
      have others := length_render_le rest
      simp only [List.length_append, List.length_cons] at whole
      obtain ⟨front, back⟩ := List.append_inj same (by omega)
      exact ⟨front, (List.cons.inj back).2⟩
    · rintro ⟨front, back⟩
      rw [front, back]

/-! ## One template, one reading -/

/-- The literals open no hole, and the expressions are balanced outside of their quotes. -/
structure IsSplit (template : Woven) : Prop where
  literals : ∀ literal ∈ template.literals, ¬ ['$', '\x7b'] <:+: literal
  inners : ∀ inner ∈ template.inners, Balanced inner

theorem IsSplit.rest {literal inner : List Char} {rest : Woven}
    (split : IsSplit (.more literal inner rest)) : IsSplit rest :=
  ⟨fun literal member => split.literals literal (List.mem_cons_of_mem _ member),
    fun inner member => split.inners inner (List.mem_cons_of_mem _ member)⟩

theorem IsSplit.first {literal inner : List Char} {rest : Woven}
    (split : IsSplit (.more literal inner rest)) : ¬ ['$', '\x7b'] <:+: literal :=
  split.literals literal List.mem_cons_self

end Woven

/-- The first opening of a hole ends the literal before it. -/
theorem literal_eq_of_opening {literal other rest more : List Char}
    (opensNone : ¬ ['$', '\x7b'] <:+: literal) (otherNone : ¬ ['$', '\x7b'] <:+: other)
    (same : literal ++ '$' :: '\x7b' :: rest = other ++ '$' :: '\x7b' :: more) :
    literal = other ∧ rest = more := by
  -- A longer literal would hold the opening at which the shorter one ends.
  have ends : ∀ {front gap before after : List Char}, ¬ ['$', '\x7b'] <:+: front ++ gap →
      '$' :: '\x7b' :: before = gap ++ '$' :: '\x7b' :: after → gap = [] := by
    intro front gap before after none opening
    match gap with
    | [] => rfl
    | [_] => simp at opening
    | _ :: _ :: gap =>
      obtain ⟨rfl, rfl, _⟩ : '$' = _ ∧ '\x7b' = _ ∧ before = _ := by simpa using opening
      exact absurd ⟨front, gap, by simp⟩ none
  rcases List.append_eq_append_iff.mp same with ⟨gap, rfl, opening⟩ | ⟨gap, rfl, opening⟩
  · obtain rfl := ends otherNone opening
    simpa using opening
  · obtain rfl := ends opensNone opening
    simpa [eq_comm] using opening

/-- A template has no other literals and expressions. -/
theorem Woven.IsSplit.unique {template other : Woven} (split : template.IsSplit)
    (otherSplit : other.IsSplit) (same : template.source = other.source) : template = other := by
  have opens : ∀ literal inner rest, ['$', '\x7b'] <:+: (Woven.more literal inner rest).source :=
    fun literal inner rest => ⟨literal, inner ++ '\x7d' :: rest.source, by simp [source, render]⟩
  induction template generalizing other with
  | last literal =>
    have opensNone := split.literals literal List.mem_cons_self
    cases other with
    | last text => exact congrArg Woven.last same
    | more text inner rest =>
      have within := opens text inner rest
      rw [← same] at within
      exact absurd within opensNone
  | more literal inner rest ih =>
    cases other with
    | last text =>
      have within := opens literal inner rest
      rw [same] at within
      exact absurd within (otherSplit.literals text List.mem_cons_self)
    | more text body others =>
      obtain ⟨rfl, behind⟩ := literal_eq_of_opening split.first otherSplit.first same
      obtain ⟨rfl, left⟩ := (split.inners inner List.mem_cons_self).unique
        (otherSplit.inners body List.mem_cons_self) behind
      rw [ih split.rest otherSplit.rest left]

end Template

namespace Script

open Recast.Script.Parser
open Template (Woven IsAround IsInner)

/-- Each expression compiles alone, without functions of its own, and has room three levels deeper.
-/
inductive WovenScripts : Woven → List Expr → Prop where
  | last {literal : List Char} : IsAround literal → WovenScripts (.last literal) []
  | more {literal inner : List Char} {rest : Woven} {body : Expr} {bodies : List Expr} :
      IsAround literal → literal.getLast? ≠ some '\\' → IsInner 0 .outside inner →
      compile? (String.ofList inner) = some ⟨body, []⟩ → nestsAt 3 inner = true →
      WovenScripts rest bodies → WovenScripts (.more literal inner rest) (body :: bodies)

/-! ## Parsing -/

/-- The segments of a template with these expressions. -/
def wovenSegments : Woven → List Expr → List Expr
  | .last literal, _ => literalSegment literal
  | .more literal _ rest, body :: bodies =>
    literalSegment literal ++ (holeSegment body ++ wovenSegments rest bodies)
  | .more literal _ _, [] => literalSegment literal

/-- The tokens of a text are read as these segments. -/
def ReadsSegments (tokens : List Token) (segments : List Expr) : Prop :=
  ∃ literal more rest later, tokens = .part (String.ofList literal) more :: rest ∧
    (literalSegment literal ++ later.filter fun segment => !isEmptyText segment) = segments ∧
    ∀ fuel, 16 * rest.length + 64 ≤ fuel →
      (if more then parseSegments fuel .hole 2 else pure []) ⟨rest, []⟩ = some (later, ⟨[], []⟩)

theorem readsSegments_last (literal : List Char) :
    ReadsSegments [.part (String.ofList literal) false] (literalSegment literal) :=
  ⟨literal, false, [], [], rfl, by simp, fun _ _ => rfl⟩

theorem ReadsSegments.more {others tokens : List Token} {segments : List Expr} {body : Expr}
    (reads : ReadsSegments others segments) (parsed : parse? tokens = some ⟨body, []⟩)
    (nested : (parseExpr (16 * tokens.length + 64) .hole 3 ⟨tokens, []⟩).isSome)
    (literal : List Char) :
    ReadsSegments (.part (String.ofList literal) true :: .symbol "\x7b" ::
        (tokens ++ .symbol "\x7d" :: others))
      (literalSegment literal ++ (holeSegment body ++ segments)) := by
  obtain ⟨next, goesOn, rest, later, rfl, rfl, read⟩ := reads
  refine ⟨literal, true, _, body :: literalSegment next ++ later, rfl, ?_, ?_⟩
  · have first : [body].filter (fun segment => !isEmptyText segment) = holeSegment body := by
      rw [holeSegment]
      cases empty : isEmptyText body <;> simp [empty]
    rw [List.cons_append, ← List.singleton_append, List.filter_append, List.filter_append, first,
      filter_literalSegment]
  · intro fuel enough
    -- One unit of fuel for the segments, and two for the braces and the statement in them.
    obtain ⟨fuel, rfl⟩ : ∃ left, fuel = left + 3 := ⟨fuel - 3, by omega⟩
    rw [List.length_cons, List.length_append, List.length_cons, List.length_cons] at enough
    have block : parseBlock (fuel + 2) .hole 2 ⟨.symbol "\x7b" ::
          (tokens ++ .symbol "\x7d" :: .part (String.ofList next) goesOn :: rest), []⟩ =
        (some body).map (·, ⟨.part (String.ofList next) goesOn :: rest, []⟩) :=
      parseBlock_around parsed nested (by omega) _
    rw [if_pos rfl, parseSegments_step block, Option.bind_some, read (fuel + 2) (by omega)]
    rfl

theorem WovenScripts.reads {template : Woven} {bodies : List Expr}
    (known : WovenScripts template bodies) :
    ∃ tokens raws, WovenTokens template tokens ∧ foldAll raws = bodies ∧
      raws.length = template.inners.length ∧
      ReadsSegments tokens (wovenSegments template raws) := by
  induction known with
  | last plain => exact ⟨_, [], .last plain, rfl, rfl, readsSegments_last _⟩
  | @more literal inner rest body bodies plain unescaped isInner compiled nests _ ih =>
    obtain ⟨others, raws, later, rfl, same, reads⟩ := ih
    obtain ⟨tokens, read, compiled⟩ := Option.bind_eq_some_iff.mp compiled
    obtain ⟨⟨raw, functions⟩, parses, compiled⟩ := Option.bind_eq_some_iff.mp compiled
    rw [String.toList_ofList] at read
    obtain ⟨rfl, none⟩ := Compiled.mk.inj (Option.some.inj compiled)
    obtain rfl := List.map_eq_nil_iff.mp none
    have nested : (parseExpr (16 * tokens.length + 64) .hole 3 ⟨tokens, []⟩).isSome := by
      rw [nestsAt, read] at nests
      exact nests
    exact ⟨_, raw :: raws, .more plain unescaped isInner read (parseExpr_before parses nested).1
      later, rfl, congrArg Nat.succ same, reads.more parses nested literal⟩

/-! ## Folding -/

/-- Whether the values of all expressions are known before they are evaluated. -/
def allKnown (bodies : List Expr) : Bool :=
  (constants? bodies).isSome

/-- The text of segments that are all known. -/
def knownText? (segments : List Expr) : Option String :=
  (constants? segments).map fun values => String.join (values.map Value.constantText)

theorem foldJoined_eq (segments : List Expr) :
    foldJoined segments =
      match knownText? segments with
      | some content => .constant (.text content)
      | none => .joined (mergeSegments segments) := by
  rw [foldJoined, knownText?]
  cases constants? segments <;> rfl

theorem knownText?_append (front back : List Expr) :
    knownText? (front ++ back) =
      (knownText? front).bind fun before => (knownText? back).map (before ++ ·) := by
  unfold knownText? constants?
  rw [List.mapM_append]
  cases front.mapM Expr.constant? with
  | none => rfl
  | some first =>
    cases back.mapM Expr.constant? with
    | none => rfl
    | some second => simp [String.join_append]

theorem knownText?_literalSegment (literal : List Char) :
    knownText? (literalSegment literal) = some (String.ofList literal) := by
  obtain ⟨values, known, text⟩ := constants?_literalSegment literal
  rw [knownText?, known, Option.map_some, text]

theorem knownText?_holeSegment (body : Expr) :
    knownText? (foldAll (holeSegment body)) = body.fold.constant?.map Value.constantText := by
  rw [holeSegment]
  cases empty : isEmptyText body with
  | true =>
    obtain rfl := eq_text_of_isEmptyText empty
    rfl
  | false =>
    rw [if_neg Bool.false_ne_true, foldAll, foldAll, knownText?, constants?, List.mapM_cons]
    cases body.fold.constant? with
    | none => rfl
    | some value => simp

theorem knownText?_wovenSegments {template : Woven} {raws : List Expr}
    (same : raws.length = template.inners.length) :
    knownText? (foldAll (wovenSegments template raws)) =
      (constants? (foldAll raws)).map fun values =>
        template.fill (values.map Value.constantText) := by
  induction template generalizing raws with
  | last literal =>
    obtain rfl := List.length_eq_zero_iff.mp same
    rw [wovenSegments, foldAll_literalSegment, knownText?_literalSegment]
    rfl
  | more literal inner rest ih =>
    obtain ⟨raw, raws, rfl⟩ := List.exists_cons_of_length_eq_add_one same
    rw [wovenSegments, foldAll_append, foldAll_append, foldAll_literalSegment, knownText?_append,
      knownText?_append, knownText?_literalSegment, knownText?_holeSegment,
      ih (Nat.succ.inj same), foldAll, constants?, constants?, List.mapM_cons]
    cases raw.fold.constant? with
    | none => rfl
    | some value =>
      cases (foldAll raws).mapM Expr.constant? with
      | none => rfl
      | some values => rfl

theorem fold_joinedExpr (segments : List Expr) :
    (joinedExpr segments).fold = foldJoined (foldAll segments) := by
  cases segments with
  | nil => rfl
  | cons segment segments => rfl

theorem ReadsSegments.parse? {tokens : List Token} {segments : List Expr}
    (reads : ReadsSegments tokens segments) :
    ∃ expr, Script.parse? tokens = some ⟨expr, []⟩ ∧
      expr.fold = foldJoined (foldAll segments) := by
  obtain ⟨literal, more, rest, later, rfl, rfl, read⟩ := reads
  cases more with
  | true =>
    have parsed : Script.parse? (.part (String.ofList literal) true :: rest) =
        (some (joinedExpr (literalSegment literal ++
          later.filter fun segment => !isEmptyText segment))).map (⟨·, []⟩) := by
      apply parse?_part
      intro fuel enough
      have segments : parseSegments fuel .hole 2 ⟨rest, []⟩ = (some later).map (·, ⟨[], []⟩) :=
        read fuel enough
      exact parsePrimary_parts literal (by decide) segments
    exact ⟨_, parsed, fold_joinedExpr _⟩
  | false =>
    obtain ⟨rfl, rfl⟩ : later = [] ∧ rest = [] := by
      have nothing := read _ (Nat.le_refl _)
      cases nothing
      exact ⟨rfl, rfl⟩
    refine ⟨.constant (.text (String.ofList literal)), ?_, ?_⟩
    · exact @parse?_templateTokens (.last literal)
        (fun _ member => absurd member List.not_mem_nil) _ rfl
    · rw [List.filter_nil, List.append_nil, foldAll_literalSegment, foldJoined_eq,
        knownText?_literalSegment]
      rfl

/-! ## Evaluating -/

section

variable {functions : List Function} {answers : Answers} {depth : Nat}
variable {before middle after : Memory} {segments : List Expr}

theorem shifts_evalAll (items : List Expr) :
    Shifts (evalAll (machineAt functions answers depth) .unit items) := by
  have still : ∀ values : List Value, Shifts (pure values) :=
    fun _ => .of_still fun _ => ⟨rfl, fun _ => rfl⟩
  induction items with
  | nil =>
    rw [evalAll]
    exact still []
  | cons item rest ih =>
    rw [evalAll]
    have first := stepLaws_shifts.anyExpr Shifts.within functions answers depth .unit item
    exact first.bind fun value => ih.bind fun values => still (value :: values)

theorem operations_le_of_evalAll {items : List Expr} {outcome : Except Stop (List Value)}
    (ran : evalAll (machineAt functions answers depth) .unit items before = (outcome, after)) :
    before.operations ≤ after.operations := by
  obtain ⟨count, taken, _⟩ := shifts_evalAll items before
  rw [ran] at taken
  exact taken ▸ Nat.le_add_right _ count

/-- The first item stops the evaluation, or the others are evaluated after it. -/
theorem evalAll_cons_cases {machine : Machine} {item : Expr} {rest : List Expr}
    {outcome : Except Stop (List Value)}
    (ran : evalAll machine .unit (item :: rest) before = (outcome, after)) :
    (∃ stop, evalExpr machine .unit item before = (.error stop, after) ∧ outcome = .error stop) ∨
      ∃ value middle others, evalExpr machine .unit item before = (.ok value, middle) ∧
        evalAll machine .unit rest middle = (others, after) ∧
        outcome = others.map (value :: ·) := by
  rw [evalAll, bind_eq] at ran
  split at ran
  next value middle first =>
    refine .inr ⟨value, middle, (evalAll machine .unit rest middle).1, first, ?_⟩
    rw [bind_eq] at ran
    cases others : evalAll machine .unit rest middle with
    | mk values last =>
      rw [others] at ran
      cases values <;> cases ran <;> exact ⟨rfl, rfl⟩
  next stop last first =>
    cases ran
    exact .inl ⟨stop, first, rfl⟩

theorem evalExpr_constant_cases {machine : Machine} {value : Value} {outcome : Except Stop Value}
    (ran : evalExpr machine .unit (.constant value) before = (outcome, after))
    (within : after.operations ≤ maxOperations) :
    outcome = .ok value ∧ before.Like after ∧ after.operations = before.operations + 1 := by
  rw [evalExpr] at ran
  rcases Nat.lt_or_ge before.operations maxOperations with room | full
  · rw [counting_of_lt _ room] at ran
    cases ran
    exact ⟨rfl, ⟨rfl, rfl, rfl⟩, rfl⟩
  · rw [counting_of_le _ full] at ran
    cases ran
    exact absurd within (Nat.not_le.mpr (Nat.lt_succ_of_le full))

theorem evalAll_constants {bodies : List Expr} {constants : List Value}
    (allConstant : constants? bodies = some constants) {outcome : Except Stop (List Value)}
    (ran : evalAll (machineAt functions answers depth) .unit bodies before = (outcome, after))
    (within : after.operations ≤ maxOperations) : outcome = .ok constants := by
  induction bodies generalizing constants before outcome with
  | nil =>
    cases allConstant
    rw [evalAll] at ran
    cases ran
    rfl
  | cons body bodies ih =>
    rw [constants?, List.mapM_cons] at allConstant
    obtain ⟨value, first, allConstant⟩ := Option.bind_eq_some_iff.mp allConstant
    obtain ⟨values, others, same⟩ := Option.bind_eq_some_iff.mp allConstant
    cases same
    rw [eq_constant_of_constant? first] at ran
    rcases evalAll_cons_cases ran with ⟨stop, stopped, _⟩ | ⟨_, middle, _, gave, later, rfl⟩
    · cases (evalExpr_constant_cases stopped within).1
    · obtain ⟨same, _⟩ := evalExpr_constant_cases gave
        (Nat.le_trans (operations_le_of_evalAll later) within)
      cases same
      rw [ih others later]
      rfl

/-- Segments that are put together write the same text in no more operations. -/
theorem Writes.merged {machine : Machine} {count : Nat} {outcome : Except Stop String}
    (writes : Writes machine before count segments outcome) :
    ∃ fewer ≤ count, Writes machine before fewer (mergeSegments segments) outcome := by
  have other : ∀ {body rest}, body.constant? = none →
      mergeSegments (body :: rest) = body :: mergeSegments rest := by
    intro body rest unknown
    rw [mergeSegments.eq_def]
    cases body with
    | constant value => cases unknown
    | _ => rfl
  induction writes with
  | nil before => exact ⟨0, Nat.le_refl 0, .nil before⟩
  | hole unknown gives _ ih =>
    obtain ⟨fewer, few, later⟩ := ih
    rw [other unknown]
    exact ⟨_, Nat.add_le_add_left few _, .hole unknown gives later⟩
  | stop rest unknown gives =>
    rw [other unknown]
    exact ⟨_, Nat.le_refl _, .stop _ unknown gives⟩
  | @constant before middle count rest outcome value like _ ih =>
    obtain ⟨fewer, few, later⟩ := ih
    rw [mergeSegments.eq_def]
    dsimp only
    split
    next isUnit =>
      cases isUnit
      have same : outcome.map (Value.unit.printed ++ ·) = outcome := map_empty_append outcome
      rw [same]
      exact ⟨fewer, Nat.le_succ_of_le few, later.of_like like⟩
    next left right tail isText same =>
      cases isText
      -- The text joins the one that the segments after it begin with.
      rw [same] at later
      cases later with
      | hole unknown => cases unknown
      | stop _ unknown => cases unknown
      | @constant _ _ count _ outcome _ next tailWrites =>
        refine ⟨count + 1, Nat.le_succ_of_le few, ?_⟩
        have joined := Writes.constant (.text (left ++ right)) (like.trans next) tailWrites
        have same : (outcome.map ((Value.text right).printed ++ ·)).map
            ((Value.text left).printed ++ ·) =
              outcome.map ((Value.text (left ++ right)).printed ++ ·) := by
          cases outcome <;> simp [Except.map, Value.printed, String.append_assoc]
        rw [same]
        exact joined
    next => exact ⟨fewer + 1, Nat.succ_le_succ few, .constant value like later⟩

theorem foldAll_holeSegment_unknown {raw : Expr} (unknown : raw.fold.constant? = none) :
    foldAll (holeSegment raw) = [raw.fold] := by
  have filled : isEmptyText raw = false := by
    rw [Bool.eq_false_iff]
    intro empty
    obtain rfl := eq_text_of_isEmptyText empty
    cases unknown
  rw [holeSegment, filled]
  rfl

/-- An empty text is no segment, and its value adds nothing. -/
theorem writes_holeSegment {raw : Expr} {value : Value} {other : Nat}
    {outcome : Except Stop String}
    (ran : evalExpr (machineAt functions answers depth) .unit raw.fold before =
      (.ok value, middle))
    (within : middle.operations ≤ maxOperations)
    (writes : Writes (machineAt functions answers depth) middle other segments outcome) :
    ∃ count, before.operations + count ≤ middle.operations + other ∧
      Writes (machineAt functions answers depth) before count
        (foldAll (holeSegment raw) ++ segments) (outcome.map (value.printed ++ ·)) := by
  cases known : raw.fold.constant? with
  | some constant =>
    have folded := eq_constant_of_constant? known
    rw [folded] at ran
    obtain ⟨same, like, taken⟩ := evalExpr_constant_cases ran within
    obtain rfl := Except.ok.inj same
    rw [holeSegment]
    cases empty : isEmptyText raw with
    | true =>
      obtain rfl := eq_text_of_isEmptyText empty
      obtain rfl : .text "" = value := Option.some.inj known
      have same : outcome.map ((Value.text "").printed ++ ·) = outcome := map_empty_append outcome
      rw [same]
      exact ⟨other, by omega, writes.of_like like⟩
    | false =>
      rw [if_neg Bool.false_ne_true, foldAll, foldAll, folded]
      exact ⟨other + 1, by omega, .constant value like writes⟩
  | none =>
    obtain ⟨count, taken, gives⟩ := evalExpr_gives _ _ _ _ _ ran within
    rw [foldAll_holeSegment_unknown known, List.singleton_append]
    exact ⟨count + other, by omega, .hole known gives writes⟩

theorem writes_holeSegment_stop {raw : Expr} {stop : Stop}
    (ran : evalExpr (machineAt functions answers depth) .unit raw.fold before =
      (.error stop, after))
    (within : after.operations ≤ maxOperations) (segments : List Expr) :
    ∃ count, before.operations + count ≤ after.operations ∧
      Writes (machineAt functions answers depth) before count
        (foldAll (holeSegment raw) ++ segments) (.error stop) := by
  have unknown : raw.fold.constant? = none := by
    cases known : raw.fold.constant? with
    | none => rfl
    | some constant =>
      rw [eq_constant_of_constant? known] at ran
      cases (evalExpr_constant_cases ran within).1
  obtain ⟨count, taken, gives⟩ := evalExpr_gives _ _ _ _ _ ran within
  rw [foldAll_holeSegment_unknown unknown, List.singleton_append]
  exact ⟨count, by omega, .stop segments unknown gives⟩

/-- The segments of a template write its text in as many operations as its expressions take, and one
for every literal. -/
theorem writes_wovenSegments {template : Woven} {raws : List Expr}
    (same : raws.length = template.inners.length) {outcome : Except Stop (List Value)}
    (ran : evalAll (machineAt functions answers depth) .unit (foldAll raws) before =
      (outcome, after))
    (within : after.operations ≤ maxOperations) :
    ∃ count, before.operations + count ≤ after.operations + template.literals.length ∧
      Writes (machineAt functions answers depth) before count
        (foldAll (wovenSegments template raws))
        (outcome.map fun values => template.fill (values.map Value.printed)) := by
  induction template generalizing raws before outcome with
  | last literal =>
    obtain rfl := List.length_eq_zero_iff.mp same
    rw [foldAll, evalAll] at ran
    cases ran
    have nothing : Writes (machineAt functions answers depth) after 0 [] (.ok "") := .nil after
    have whole := nothing.literal literal
    have short := length_literalSegment_le literal
    rw [List.append_nil] at whole
    rw [wovenSegments, foldAll_literalSegment]
    exact ⟨_, Nat.add_le_add_left short _, by simpa [Except.map, Woven.fill] using whole⟩
  | more literal inner rest ih =>
    obtain ⟨raw, raws, rfl⟩ := List.exists_cons_of_length_eq_add_one same
    have short := length_literalSegment_le literal
    have one : (Woven.more literal inner rest).literals.length = rest.literals.length + 1 := rfl
    rw [wovenSegments, foldAll_append, foldAll_append, foldAll_literalSegment]
    rcases evalAll_cons_cases ran with
      ⟨stop, stopped, rfl⟩ | ⟨value, middle, others, gave, later, rfl⟩
    · obtain ⟨count, few, writes⟩ :=
        writes_holeSegment_stop stopped within (foldAll (wovenSegments rest raws))
      exact ⟨_, by omega, writes.literal literal⟩
    · have passed := operations_le_of_evalAll later
      obtain ⟨other, few, writes⟩ := ih (Nat.succ.inj same) later
      obtain ⟨count, fewer, whole⟩ := writes_holeSegment gave (by omega) writes
      have written := whole.literal literal
      refine ⟨(literalSegment literal).length + count, by omega, ?_⟩
      cases others <;> simpa [Except.map, Woven.fill] using written

end

/-- What a template comes to, from what its expressions come to. Their values are literals in its
text if all of them are known beforehand. -/
def outcomeWoven (template : Woven) (bodies : List Expr) :
    Except Stop (List Value) → Except Fault Value
  | .error stop => stop.outcome
  | .ok values =>
    let shown := template.fill (values.map (Value.shown (allKnown bodies)))
    if allKnown bodies || decide (shown.utf8ByteSize ≤ maxTextBytes) then .ok (.text shown)
    else .error .textTooLong

theorem run_wovenSegments {template : Woven} {raws : List Expr}
    (same : raws.length = template.inners.length) {answers : Answers} {known : Bindings}
    {outcome : Except Stop (List Value)} {ended : Memory}
    (ran : evalAll (machineAt [] answers maxCalls) .unit (foldAll raws) ⟨known, false, .none⟩ =
      (outcome, ended))
    (room : ended.operations + template.literals.length + 2 ≤ maxOperations) :
    ((⟨foldJoined (foldAll (wovenSegments template raws)), []⟩ : Compiled).run answers known).1 =
      outcomeWoven template (foldAll raws) outcome := by
  rw [foldJoined_eq, knownText?_wovenSegments same]
  cases constant : constants? (foldAll raws) with
  | some constants =>
    have isKnown : allKnown (foldAll raws) = true := by rw [allKnown, constant]; rfl
    obtain rfl := evalAll_constants constant ran (by omega)
    obtain ⟨_, whole, _⟩ := evaluate_constant known answers
      (.text (template.fill (constants.map Value.constantText))) []
    rw [Option.map_some]
    dsimp only
    rw [Compiled.run_eq, whole, outcomeWoven, isKnown]
    rfl
  | none =>
    have unknown : allKnown (foldAll raws) = false := by rw [allKnown, constant]; rfl
    have start : (⟨known, false, .none⟩ : Memory).operations = 0 := rfl
    obtain ⟨count, few, writes⟩ := writes_wovenSegments same ran (by omega)
    obtain ⟨fewer, less, merged⟩ := writes.merged
    rw [Option.map_none]
    dsimp only
    rw [merged.run (by omega)]
    cases outcome with
    | error stop => rfl
    | ok values =>
      have written : writtenOutcome (Except.map (fun values : List Value =>
          template.fill (values.map Value.printed)) (.ok values)) =
            boundedText (template.fill (values.map Value.printed)) := rfl
      have printed : Value.shown false = Value.printed := rfl
      rw [written, boundedText_eq, outcomeWoven, unknown, printed]
      simp

/-! ## Compiling -/

theorem compile?_woven {template : Woven} {bodies : List Expr}
    (known : WovenScripts template bodies) (noBreak : template.source.head? ≠ some '\n') :
    ∃ raws, foldAll raws = bodies ∧ raws.length = template.inners.length ∧
      compile? (String.ofList (Template.rewrite false template.source)) =
        some ⟨foldJoined (foldAll (wovenSegments template raws)), []⟩ := by
  obtain ⟨tokens, raws, woven, folded, same, reads⟩ := known.reads
  obtain ⟨expr, parses, foldedExpr⟩ := reads.parse?
  have read : lex? (Template.rewrite false template.source) = some tokens :=
    lex?_woven woven noBreak
  refine ⟨raws, folded, same, ?_⟩
  rw [compile?, String.toList_ofList, read, Option.bind_eq_bind, Option.bind_some, parses,
    Option.bind_eq_bind, Option.bind_some, Compiled.fold, foldedExpr]
  rfl

end Script

open Script (allKnown)

namespace Template

end Template

namespace Script

theorem nestsAt_variable {name : String} (isVariable : IsVariable name) :
    nestsAt 3 name.toList = true := by
  rw [nestsAt, lex?_variable isVariable, Option.any_some]
  exact congrArg Option.isSome (parseExpr_name 76 (by decide) name stopsExpr_nil)

private theorem isVariable_field {name : String} (known : name ∈ ["a", "b"]) :
    IsVariable name := by
  simp only [List.mem_cons, List.not_mem_nil, or_false] at known
  rcases known with rfl | rfl
  · exact ⟨by simp [isNamePart], by cbv⟩
  · exact ⟨by simp [isNamePart], by cbv⟩

end Script

namespace Template

open Script (isVariable_field)

end Template

end Recast
