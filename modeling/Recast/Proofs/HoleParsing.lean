import Mathlib
import Recast.Proofs.BackTicks

set_option autoImplicit false

/-!
# The expression of a hole

A name is a variable and a segment is an item of one. A hole whose tokens are no expression makes
the whole template none.
-/

namespace Recast.Script

open Recast.Script.Parser
open Template (Hole Plain)

variable {functions : List Function}

/-- The expression of a hole, if it has one. -/
def holeExpr? : Hole → Option Expr
  | .named name =>
    match wordToken? name.toList with
    | some (.name name) => some (.variable name)
    | _ => none
  | .segment family index =>
    if isInt index then some (.chain (.variable family) [.index false (.constant (.int index))])
    else none

/-- What follows an expression: nothing, or the end of its brackets. -/
def StopsExpr (tokens : List Token) : Prop :=
  ∀ token ∈ tokens.head?, token = .symbol "\x7d" ∨ token = .symbol "]"

theorem stopsExpr_nil : StopsExpr [] := by
  intro token first
  cases first

/-! ## Parsers -/

section Running

variable {α β : Type} {first : Parser α} {next : α → Parser β} {before after : Pending}

theorem bind_some {value : α} (read : first before = some (value, after)) :
    (first >>= next) before = next value after := by
  simp only [bind, StateT.bind, read, Option.bind_some]

theorem bind_none (failed : first before = none) : (first >>= next) before = none := by
  simp only [bind, StateT.bind, failed, Option.bind_none]

theorem peek?_eq (tokens : List Token) :
    peek? ⟨tokens, functions⟩ = some (tokens.head?, ⟨tokens, functions⟩) := rfl

theorem skip_cons (token : Token) (rest : List Token) :
    skip ⟨token :: rest, functions⟩ = some ((), ⟨rest, functions⟩) := rfl

theorem deeper_of_lt {level : Nat} (room : level < 64) (pending : Pending) :
    deeper level pending = some (level + 1, pending) := by
  rw [deeper, maxLevel, if_pos room]
  rfl

theorem accept_symbol (sign : String) (rest : List Token) :
    accept sign ⟨.symbol sign :: rest, functions⟩ = some (true, ⟨rest, functions⟩) := by
  rw [accept, bind_some (peek?_eq _)]
  dsimp only [List.head?_cons]
  rw [if_pos rfl, bind_some (skip_cons _ _)]
  rfl

theorem expect_symbol (sign : String) (rest : List Token) :
    expect sign ⟨.symbol sign :: rest, functions⟩ = some ((), ⟨rest, functions⟩) := by
  rw [expect, bind_some (accept_symbol sign rest)]
  rfl

theorem accept_other {sign found : String} (other : found ≠ sign) (rest : List Token) :
    accept sign ⟨.symbol found :: rest, functions⟩ =
      some (false, ⟨.symbol found :: rest, functions⟩) := by
  rw [accept, bind_some (peek?_eq _)]
  dsimp only [List.head?_cons]
  rw [if_neg other]
  rfl

end Running

/-! ## Expressions of holes -/

theorem accept_of_stopsExpr {rest : List Token} (stops : StopsExpr rest) :
    accept "(" ⟨rest, functions⟩ = some (false, ⟨rest, functions⟩) := by
  cases rest with
  | nil => rfl
  | cons token rest =>
    rcases stops token rfl with rfl | rfl
    · exact accept_other (by decide) rest
    · exact accept_other (by decide) rest

theorem parseOperators_stop (fuel level : Nat) (left : Expr) {rest : List Token}
    (stops : StopsExpr rest) :
    parseOperators (fuel + 1) .hole level 1 left ⟨rest, functions⟩ =
      some (left, ⟨rest, functions⟩) := by
  rw [parseOperators, bind_some (peek?_eq _)]
  cases rest with
  | nil => rfl
  | cons token rest =>
    rcases stops token rfl with rfl | rfl <;> rfl

theorem parseSteps_stop (fuel level : Nat) (base : Expr) (atBase : Bool) {rest : List Token}
    (stops : StopsExpr rest) :
    parseSteps (fuel + 1) .hole level base atBase ⟨rest, functions⟩ =
      some ([], ⟨rest, functions⟩) := by
  rw [parseSteps, bind_some (peek?_eq _)]
  cases rest with
  | nil => rfl
  | cons token rest =>
    rcases stops token rfl with rfl | rfl <;> rfl

/-- An expression that begins with no sign is a chain of steps. -/
theorem parseExpr_chain (fuel : Nat) {level : Nat} (room : level < 64) {token : Token}
    (noSign : ∀ sign ∈ ["-", "+", "!"], token ≠ .symbol sign) {rest left : List Token}
    {chain : Option Expr} {after : List Function} (stops : StopsExpr left)
    (parsed : parseChain (fuel + 1) .hole (level + 1) ⟨token :: rest, functions⟩ =
      chain.map (·, ⟨left, after⟩)) :
    parseExpr (fuel + 3) .hole level ⟨token :: rest, functions⟩ =
      chain.map (·, ⟨left, after⟩) := by
  have unary : parseUnary (fuel + 2) .hole (level + 1) ⟨token :: rest, functions⟩ =
      parseChain (fuel + 1) .hole (level + 1) ⟨token :: rest, functions⟩ := by
    rw [parseUnary, bind_some (peek?_eq _)]
    cases token with
    | symbol sign =>
      have other : ¬ ["-", "+", "!"].contains sign = true := fun known =>
        noSign sign (List.contains_iff_mem.mp known) rfl
      dsimp only [List.head?_cons]
      rw [if_neg other]
    | _ => rfl
  rw [parseExpr, bind_some (deeper_of_lt room _)]
  cases chain with
  | none => exact bind_none (unary.trans parsed)
  | some expr =>
    rw [bind_some (unary.trans parsed)]
    exact parseOperators_stop (fuel + 1) (level + 1) expr stops

theorem parseChain_alone (fuel : Nat) (level : Nat) {tokens rest : List Token} {expr : Expr}
    {after : List Function} (stops : StopsExpr rest)
    (parsed : parsePrimary (fuel + 1) .hole level ⟨tokens, functions⟩ =
      some (expr, ⟨rest, after⟩)) :
    parseChain (fuel + 2) .hole level ⟨tokens, functions⟩ = some (expr, ⟨rest, after⟩) := by
  rw [parseChain, bind_some parsed, bind_some (parseSteps_stop fuel level expr true stops)]
  rfl

private theorem name_noSign (name : String) :
    ∀ sign ∈ ["-", "+", "!"], Token.name name ≠ .symbol sign := by
  intro sign _ same
  cases same

theorem parsePrimary_name (fuel level : Nat) (name : String) {rest : List Token}
    (noCall : accept "(" ⟨rest, functions⟩ = some (false, ⟨rest, functions⟩)) :
    parsePrimary (fuel + 1) .hole level ⟨.name name :: rest, functions⟩ =
      some (.variable name, ⟨rest, functions⟩) := by
  rw [parsePrimary, bind_some (peek?_eq _)]
  dsimp only [List.head?_cons]
  rw [bind_some (skip_cons _ _), bind_some noCall]
  rfl

theorem parseExpr_name (fuel : Nat) {level : Nat} (room : level < 64) (name : String)
    {rest : List Token} (stops : StopsExpr rest) :
    parseExpr (fuel + 4) .hole level ⟨.name name :: rest, functions⟩ =
      some (.variable name, ⟨rest, functions⟩) := by
  have chain : parseChain (fuel + 2) .hole (level + 1) ⟨.name name :: rest, functions⟩ =
      (some (.variable name)).map (·, ⟨rest, functions⟩) :=
    parseChain_alone fuel (level + 1) stops
      (parsePrimary_name fuel (level + 1) name (accept_of_stopsExpr stops))
  exact parseExpr_chain (fuel + 1) room (name_noSign name) stops chain

theorem parseExpr_number (fuel : Nat) {level : Nat} (room : level < 64) {token : Token}
    {value : Value} (number : (∃ index, token = .int index ∧ value = .int index) ∨
      ∃ double, token = .float double ∧ value = .float double) {rest : List Token}
    (stops : StopsExpr rest) :
    parseExpr (fuel + 4) .hole level ⟨token :: rest, functions⟩ =
      some (.constant value, ⟨rest, functions⟩) := by
  have primary : parsePrimary (fuel + 1) .hole (level + 1) ⟨token :: rest, functions⟩ =
      some (.constant value, ⟨rest, functions⟩) := by
    rw [parsePrimary]
    rcases number with ⟨index, rfl, rfl⟩ | ⟨double, rfl, rfl⟩ <;> rfl
  have chain : parseChain (fuel + 2) .hole (level + 1) ⟨token :: rest, functions⟩ =
      (some (.constant value)).map (·, ⟨rest, functions⟩) :=
    parseChain_alone fuel (level + 1) stops primary
  refine parseExpr_chain (fuel + 1) room ?_ stops chain
  intro sign _ same
  rcases number with ⟨index, rfl, rfl⟩ | ⟨double, rfl, rfl⟩
  · cases same
  · cases same

/-- An index in brackets is one step, if it is an integer. -/
theorem parseSteps_index (fuel : Nat) {level : Nat} (room : level + 1 < 64) (family : String)
    {token : Token} {value : Value} (number : (∃ index, token = .int index ∧ value = .int index) ∨
      ∃ double, token = .float double ∧ value = .float double) {rest : List Token}
    (stops : StopsExpr rest) :
    parseSteps (fuel + 5) .hole level (.variable family) true
        ⟨.symbol "[" :: token :: .symbol "]" :: rest, functions⟩ =
      if mayIndex (.variable family) (.constant value) then
        some ([.index false (.constant value)], ⟨rest, functions⟩)
      else none := by
  have bracket : StopsExpr (.symbol "]" :: rest) := by
    intro token first
    exact Or.inr (Option.some.inj first).symm
  have position : parseExpr (fuel + 4) .hole (level + 1) ⟨token :: .symbol "]" :: rest, functions⟩ =
      some (.constant value, ⟨.symbol "]" :: rest, functions⟩) :=
    parseExpr_number fuel room number bracket
  have next : parseSteps (fuel + 4) .hole level (.variable family) false ⟨rest, functions⟩ =
      some ([], ⟨rest, functions⟩) :=
    parseSteps_stop (fuel + 3) level (.variable family) false stops
  rw [parseSteps, bind_some (peek?_eq _)]
  dsimp only [List.head?_cons]
  rw [if_neg (by decide), if_pos (by decide), bind_some (skip_cons _ _),
    bind_some (deeper_of_lt (Nat.lt_of_succ_lt room) _), bind_some position,
    bind_some (expect_symbol _ _), if_pos rfl]
  cases mayIndex (.variable family) (.constant value) with
  | true =>
    have allowed : ensure true ⟨rest, functions⟩ = some ((), ⟨rest, functions⟩) := rfl
    rw [bind_some allowed, bind_some next]
    rfl
  | false => exact bind_none rfl

/-- The tokens of a hole are read as its expression, if it has one. -/
theorem parseExpr_hole {hole : Hole} (plain : hole.IsPlain) {tokens : List Token}
    (read : holeTokens? hole = some tokens) (fuel : Nat) {level : Nat} (room : level + 2 < 64)
    {rest : List Token} (stops : StopsExpr rest) :
    parseExpr (fuel + 8) .hole level ⟨tokens ++ rest, functions⟩ =
      (holeExpr? hole).map (·, ⟨rest, functions⟩) := by
  cases hole with
  | named name =>
    obtain ⟨_, _, noKeyword, noReserved⟩ := plain
    obtain ⟨token, word, rfl⟩ := Option.map_eq_some_iff.mp read
    rw [holeExpr?, word]
    rcases wordToken?_plain noKeyword noReserved word with rfl | rfl
    · have chain : parseChain (fuel + 6) .hole (level + 1)
          ⟨.symbol "_" :: rest, functions⟩ = (none : Option Expr).map (·, ⟨rest, functions⟩) := by
        have primary : parsePrimary (fuel + 5) .hole (level + 1)
            ⟨.symbol "_" :: rest, functions⟩ = none := by
          rw [parsePrimary]
          rfl
        rw [parseChain]
        exact bind_none primary
      have noSign : ∀ sign ∈ ["-", "+", "!"], Token.symbol "_" ≠ .symbol sign := by simp
      exact parseExpr_chain (fuel + 5) (by omega) noSign stops chain
    · exact parseExpr_name (fuel + 4) (by omega) name stops
  | segment family index =>
    obtain ⟨token, word, rfl⟩ := Option.map_eq_some_iff.mp read
    have noCall : accept "(" ⟨.symbol "[" :: token :: .symbol "]" :: rest, functions⟩ =
        some (false, ⟨.symbol "[" :: token :: .symbol "]" :: rest, functions⟩) :=
      accept_other (by decide) _
    have primary := parsePrimary_name (fuel + 4) (level + 1) family noCall
    have chain : parseChain (fuel + 6) .hole (level + 1)
        ⟨.name family :: .symbol "[" :: token :: .symbol "]" :: rest, functions⟩ =
          (holeExpr? (.segment family index)).map (·, ⟨rest, functions⟩) := by
      rw [parseChain, bind_some primary]
      unfold indexToken? at word
      rw [holeExpr?]
      split at word
      next fits =>
        cases word
        rw [if_pos fits, bind_some ((parseSteps_index fuel room family (.inl ⟨index, rfl, rfl⟩)
          stops).trans (if_pos rfl))]
        rfl
      next large =>
        obtain ⟨double, _, rfl⟩ := Option.map_eq_some_iff.mp word
        rw [if_neg large]
        exact bind_none (parseSteps_index fuel room family (.inr ⟨double, rfl, rfl⟩) stops)
    exact parseExpr_chain (fuel + 5) (by omega) (name_noSign family) stops chain

/-! ## Texts with holes -/

/-- A literal as a segment of a text, unless it is empty. -/
def literalSegment (literal : List Char) : List Expr :=
  if literal.isEmpty then [] else [.constant (.text (String.ofList literal))]

theorem length_literalSegment_le (literal : List Char) : (literalSegment literal).length ≤ 1 := by
  unfold literalSegment
  split <;> simp

/-- The segments of a template, if all of its holes have expressions. -/
def segments? : Plain → Option (List Expr)
  | .last literal => some (literalSegment literal)
  | .more literal hole rest =>
    (holeExpr? hole).bind fun expr =>
      (segments? rest).map fun others => literalSegment literal ++ expr :: others

/-- The expression of a template, if all of its holes have one. -/
def templateExpr? : Plain → Option Expr
  | .last literal => some (.constant (.text (String.ofList literal)))
  | .more literal hole rest => (segments? (.more literal hole rest)).map .joined

theorem isEmpty_ofList (text : List Char) : (String.ofList text).isEmpty = text.isEmpty := by
  cases text with
  | nil => rfl
  | cons char rest => simp

/-- Braces around the tokens of an expression. -/
theorem parseBlock_expr {fuel level : Nat} (room : level < 64) {tokens rest : List Token}
    {expr : Option Expr} {after : List Function}
    (parsed : parseExpr fuel .hole (level + 1) ⟨tokens ++ .symbol "\x7d" :: rest, functions⟩ =
      expr.map (·, ⟨.symbol "\x7d" :: rest, after⟩)) :
    parseBlock (fuel + 2) .hole level
        ⟨.symbol "\x7b" :: (tokens ++ .symbol "\x7d" :: rest), functions⟩ =
      expr.map (·, ⟨rest, after⟩) := by
  have statement : parseStatement (fuel + 1) .hole (level + 1)
      ⟨tokens ++ .symbol "\x7d" :: rest, functions⟩ =
        expr.map (·, ⟨.symbol "\x7d" :: rest, after⟩) := by
    rw [parseStatement]
    cases expr with
    | none => exact bind_none parsed
    | some expr =>
      rw [bind_some parsed, bind_some (peek?_eq _)]
      rfl
  rw [parseBlock, bind_some (expect_symbol _ _), bind_some (deeper_of_lt room _),
    if_neg (by decide)]
  cases expr with
  | none => exact bind_none statement
  | some expr =>
    rw [bind_some statement]
    dsimp only
    rw [bind_some (expect_symbol _ _)]
    rfl

theorem parseBlock_hole {hole : Hole} (plain : hole.IsPlain) {tokens : List Token}
    (read : holeTokens? hole = some tokens) (fuel : Nat) {level : Nat} (room : level + 3 < 64)
    (rest : List Token) :
    parseBlock (fuel + 10) .hole level
        ⟨.symbol "\x7b" :: (tokens ++ .symbol "\x7d" :: rest), functions⟩ =
      (holeExpr? hole).map (·, ⟨rest, functions⟩) := by
  have stops : StopsExpr (.symbol "\x7d" :: rest) := by
    intro token first
    exact Or.inl (Option.some.inj first).symm
  exact parseBlock_expr (by omega) (parseExpr_hole plain read fuel (by omega) stops)

/-- A hole and the literal after it are segments, and more follow if the text goes on. -/
theorem parseSegments_step {fuel level : Nat} {tokens rest : List Token}
    {hole : Option Expr} {literal : List Char} {more : Bool} {after : List Function}
    (block : parseBlock fuel .hole level ⟨tokens, functions⟩ =
      hole.map (·, ⟨.part (String.ofList literal) more :: rest, after⟩)) :
    parseSegments (fuel + 1) .hole level ⟨tokens, functions⟩ = hole.bind fun expr =>
      ((if more then parseSegments fuel .hole level else pure []) ⟨rest, after⟩).map
        fun found => (expr :: literalSegment literal ++ found.1, found.2) := by
  rw [parseSegments]
  cases hole with
  | none => exact bind_none block
  | some expr =>
    rw [bind_some block, bind_some (peek?_eq _)]
    dsimp only [List.head?_cons]
    rw [bind_some (skip_cons _ _), isEmpty_ofList]
    cases more with
    | false => rfl
    | true =>
      rw [if_pos rfl, if_pos rfl, Option.bind_some]
      cases later : parseSegments fuel .hole level ⟨rest, after⟩ with
      | none => exact bind_none later
      | some found =>
        rw [bind_some later]
        rfl

theorem segments?_more (literal : List Char) (hole : Hole) (rest : Plain) :
    segments? (.more literal hole rest) =
      (segments? (.more [] hole rest)).map (literalSegment literal ++ ·) := by
  rw [segments?, segments?]
  cases holeExpr? hole with
  | none => rfl
  | some expr =>
    cases segments? rest with
    | none => rfl
    | some others => rfl

theorem parseSegments_holes {hole : Hole} {rest : Plain} (plain : hole.IsPlain)
    (others : ∀ hole ∈ rest.holes, hole.IsPlain) {inner tokens : List Token}
    (read : holeTokens? hole = some inner) (readOthers : templateTokens? rest = some tokens)
    {fuel : Nat} (enough : rest.holes.length + 10 < fuel) {level : Nat} (room : level + 3 < 64) :
    parseSegments fuel .hole level
        ⟨.symbol "\x7b" :: (inner ++ .symbol "\x7d" :: tokens), functions⟩ =
      (segments? (.more [] hole rest)).map (·, ⟨[], functions⟩) := by
  -- One unit of fuel for each hole, and eleven for the calls that lead down to the last one.
  obtain ⟨fuel, rfl⟩ : ∃ left, fuel = left + 11 := ⟨fuel - 11, by omega⟩
  induction rest generalizing hole inner tokens fuel with
  | last literal =>
    cases readOthers
    rw [parseSegments_step (parseBlock_hole plain read fuel room _), segments?]
    cases holeExpr? hole with
    | none => rfl
    | some expr => simp [segments?, literalSegment, pure, StateT.pure]
  | more literal next rest ih =>
    rw [templateTokens?] at readOthers
    obtain ⟨nextInner, nextRead, readOthers⟩ := Option.bind_eq_some_iff.mp readOthers
    obtain ⟨nextTokens, readRest, rfl⟩ := Option.map_eq_some_iff.mp readOthers
    rw [Plain.holes, List.length_cons] at enough
    obtain ⟨fuel, rfl⟩ : ∃ left, fuel = left + 1 := ⟨fuel - 1, by omega⟩
    have tail := ih (others next List.mem_cons_self)
      (fun hole member => others hole (List.mem_cons_of_mem _ member)) nextRead readRest fuel
      (by omega)
    have whole : segments? (.more [] hole (.more literal next rest)) = (holeExpr? hole).bind
        fun expr => (segments? (.more literal next rest)).map (expr :: ·) := rfl
    rw [parseSegments_step (parseBlock_hole plain read (fuel + 1) room _), if_pos rfl, tail, whole,
      segments?_more literal]
    cases holeExpr? hole with
    | none => rfl
    | some expr =>
      cases segments? (.more [] next rest) with
      | none => rfl
      | some found => rfl

theorem holeExpr?_cases {hole : Hole} {expr : Expr} (found : holeExpr? hole = some expr) :
    (∃ name, expr = .variable name) ∨
      ∃ family index, expr = .chain (.variable family) [.index false (.constant (.int index))] := by
  cases hole with
  | named name =>
    rw [holeExpr?] at found
    split at found
    next name _ => exact Or.inl ⟨name, (Option.some.inj found).symm⟩
    next => cases found
  | segment family index =>
    rw [holeExpr?] at found
    split at found
    next => exact Or.inr ⟨family, index, (Option.some.inj found).symm⟩
    next => cases found

/-- A segment is the expression of a hole or a literal that is not empty. -/
theorem mem_segments? {template : Plain} {segments : List Expr}
    (found : segments? template = some segments) {segment : Expr} (member : segment ∈ segments) :
    (∃ hole, holeExpr? hole = some segment) ∨
      ∃ literal : List Char, literal ≠ [] ∧
        segment = .constant (.text (String.ofList literal)) := by
  have literalCase : ∀ literal, segment ∈ literalSegment literal →
      ∃ literal : List Char, literal ≠ [] ∧
        segment = .constant (.text (String.ofList literal)) := by
    intro literal member
    unfold literalSegment at member
    split at member
    next => cases member
    next filled =>
      exact ⟨literal, fun empty => filled (empty ▸ rfl), List.mem_singleton.mp member⟩
  induction template generalizing segments with
  | last literal =>
    cases found
    exact Or.inr (literalCase literal member)
  | more literal hole rest ih =>
    obtain ⟨expr, first, found⟩ := Option.bind_eq_some_iff.mp found
    obtain ⟨others, later, rfl⟩ := Option.map_eq_some_iff.mp found
    rcases List.mem_append.mp member with member | member
    · exact Or.inr (literalCase literal member)
    rcases List.mem_cons.mp member with rfl | member
    · exact Or.inl ⟨hole, first⟩
    · exact ih later member

private theorem filter_segments {template : Plain} {segments : List Expr}
    (found : segments? template = some segments) :
    segments.filter (fun segment => !isEmptyText segment) = segments := by
  apply List.filter_eq_self.mpr
  intro segment member
  rcases mem_segments? found member with ⟨hole, expr⟩ | ⟨literal, filled, rfl⟩
  · rcases holeExpr?_cases expr with ⟨name, rfl⟩ | ⟨family, index, rfl⟩
    · rfl
    · rfl
  · rw [isEmptyText, isEmpty_ofList, List.isEmpty_eq_false_iff.mpr filled]
    rfl

/-- The expression of a text with these segments. -/
def joinedExpr (segments : List Expr) : Expr :=
  if segments.isEmpty then .constant (.text "") else .joined segments

/-- A text with holes has its first literal and the segments that follow, without empty texts. -/
theorem parsePrimary_parts (literal : List Char) {fuel level : Nat} (room : level < 64)
    {tokens rest : List Token} {later : Option (List Expr)} {after : List Function}
    (segments : parseSegments fuel .hole (level + 1) ⟨tokens, functions⟩ =
      later.map (·, ⟨rest, after⟩)) :
    parsePrimary (fuel + 1) .hole level ⟨.part (String.ofList literal) true :: tokens, functions⟩ =
      (later.map fun later => joinedExpr (literalSegment literal ++
        later.filter fun segment => !isEmptyText segment)).map (·, ⟨rest, after⟩) := by
  rw [parsePrimary, bind_some (peek?_eq _)]
  dsimp only [List.head?_cons]
  rw [bind_some (skip_cons _ _), if_neg (by decide), bind_some (deeper_of_lt room _)]
  cases later with
  | none => exact bind_none segments
  | some later =>
    rw [bind_some segments, isEmpty_ofList, literalSegment]
    cases literal.isEmpty <;> rfl

private theorem parsePrimary_template {template : Plain}
    (holes : ∀ hole ∈ template.holes, hole.IsPlain) {tokens : List Token}
    (read : templateTokens? template = some tokens) {fuel : Nat}
    (enough : template.holes.length + 10 < fuel) {level : Nat} (room : level + 4 < 64) :
    parsePrimary (fuel + 1) .hole level ⟨tokens, functions⟩ =
      (templateExpr? template).map (·, ⟨[], functions⟩) := by
  cases template with
  | last literal =>
    cases read
    rw [parsePrimary]
    rfl
  | more literal hole rest =>
    rw [templateTokens?] at read
    obtain ⟨inner, readHole, read⟩ := Option.bind_eq_some_iff.mp read
    obtain ⟨others, readRest, rfl⟩ := Option.map_eq_some_iff.mp read
    rw [Plain.holes, List.length_cons] at enough
    have parsed : parseSegments fuel .hole (level + 1)
        ⟨.symbol "\x7b" :: (inner ++ .symbol "\x7d" :: others), functions⟩ =
          (segments? (.more [] hole rest)).map (·, ⟨[], functions⟩) :=
      parseSegments_holes (holes hole List.mem_cons_self)
        (fun hole member => holes hole (List.mem_cons_of_mem _ member)) readHole readRest
        (by omega) (by omega)
    rw [parsePrimary_parts literal (by omega) parsed, templateExpr?, segments?_more literal]
    cases found : segments? (.more [] hole rest) with
    | none => rfl
    | some segments =>
      obtain ⟨expr, first, tail⟩ := Option.bind_eq_some_iff.mp found
      obtain ⟨others, _, rfl⟩ := Option.map_eq_some_iff.mp tail
      rw [Option.map_some, filter_segments found, joinedExpr]
      unfold literalSegment
      cases literal.isEmpty with
      | true => rfl
      | false => rfl

theorem holes_length_le {template : Plain} {tokens : List Token}
    (read : templateTokens? template = some tokens) : template.holes.length ≤ tokens.length := by
  induction template generalizing tokens with
  | last literal => exact Nat.zero_le _
  | more literal hole rest ih =>
    rw [templateTokens?] at read
    obtain ⟨inner, _, read⟩ := Option.bind_eq_some_iff.mp read
    obtain ⟨others, later, rfl⟩ := Option.map_eq_some_iff.mp read
    have shorter := ih later
    simp only [Plain.holes, List.length_cons, List.length_append]
    omega

theorem parse?_eq {tokens : List Token} {body : Option Expr}
    (parsed : parseExpr (16 * tokens.length + 64) .hole 0 ⟨tokens, []⟩ =
      body.map (·, ⟨[], functions⟩)) : parse? tokens = body.map (⟨·, functions⟩) := by
  rw [parse?]
  simp only [parsed]
  cases body with
  | none => rfl
  | some body => rfl

theorem parse?_name (name : String) : parse? [.name name] = some ⟨.variable name, []⟩ := by
  have parsed : parseExpr (16 * [Token.name name].length + 64) .hole 0 ⟨[.name name], []⟩ =
      (some (Expr.variable name)).map (·, ⟨[], []⟩) :=
    parseExpr_name 76 (by decide) name stopsExpr_nil
  exact parse?_eq parsed

/-- A text is a whole script if its expression is all that there is. -/
theorem parse?_part {content : String} {more : Bool} {rest : List Token} {expr : Option Expr}
    (primary : ∀ fuel, 16 * rest.length + 64 ≤ fuel →
      parsePrimary (fuel + 1) .hole 1 ⟨.part content more :: rest, []⟩ =
        expr.map (·, ⟨[], functions⟩)) :
    parse? (.part content more :: rest) = expr.map (⟨·, functions⟩) := by
  obtain ⟨fuel, enough, room⟩ : ∃ fuel, 16 * rest.length + 64 ≤ fuel ∧
      16 * (Token.part content more :: rest).length + 64 = fuel + 4 :=
    ⟨16 * rest.length + 76, by omega, by rw [List.length_cons]; omega⟩
  have noSign : ∀ sign ∈ ["-", "+", "!"], Token.part content more ≠ .symbol sign := by
    intro sign _ same
    cases same
  have read := primary fuel enough
  apply parse?_eq
  rw [room]
  refine parseExpr_chain (fuel + 1) (by decide) noSign stopsExpr_nil ?_
  cases expr with
  | none =>
    rw [parseChain]
    exact bind_none read
  | some expr => exact parseChain_alone fuel 1 stopsExpr_nil read

/-- The tokens of a template are read as its expression. -/
theorem parse?_templateTokens {template : Plain} (holes : ∀ hole ∈ template.holes, hole.IsPlain)
    {tokens : List Token} (read : templateTokens? template = some tokens) :
    parse? tokens = (templateExpr? template).map (⟨·, []⟩) := by
  have bound := holes_length_le read
  obtain ⟨content, more, others, rfl⟩ : ∃ content more others,
      tokens = .part content more :: others := by
    cases template with
    | last literal => cases read; exact ⟨_, _, _, rfl⟩
    | more literal hole rest =>
      rw [templateTokens?] at read
      obtain ⟨inner, _, read⟩ := Option.bind_eq_some_iff.mp read
      obtain ⟨others, _, rfl⟩ := Option.map_eq_some_iff.mp read
      exact ⟨_, _, _, rfl⟩
  apply parse?_part
  intro fuel enough
  rw [List.length_cons] at bound
  exact parsePrimary_template holes read (by omega) (by decide)

theorem parse?_holeTokens {hole : Hole} (plain : hole.IsPlain) {tokens : List Token}
    (read : holeTokens? hole = some tokens) :
    parse? tokens = (holeExpr? hole).map (⟨·, []⟩) := by
  apply parse?_eq
  have parsed : parseExpr (16 * tokens.length + 64) .hole 0 ⟨tokens ++ [], []⟩ =
      (holeExpr? hole).map (·, ⟨[], []⟩) :=
    parseExpr_hole plain read (16 * tokens.length + 56) (by decide) stopsExpr_nil
  rwa [List.append_nil] at parsed

end Recast.Script
