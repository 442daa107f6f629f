import Recast.Proofs.HoleParsing
import Recast.Proofs.Operations
import Recast.Proofs.SortedKeys
import Recast.Proofs.TokenTable

set_option autoImplicit false

/-!
# The value of a template

What a template gives as a script: the value of its only hole, or its literals and the values of
its holes as one text.
-/

namespace Recast

/-- The text of a template whose holes have texts. -/
def Template.Plain.render (text : Template.Hole → List Char) : Template.Plain → List Char
  | .last literal => literal
  | .more literal hole rest => literal ++ (text hole ++ rest.render text)

namespace Script

open Template (Hole Plain)

/-! ## Folding -/

theorem fold_holeExpr {hole : Hole} {expr : Expr} (found : holeExpr? hole = some expr) :
    expr.fold = expr := by
  rcases holeExpr?_cases found with ⟨name, rfl⟩ | ⟨family, index, rfl⟩
  · rfl
  · rfl

private theorem foldAll_eq_self {items : List Expr} (fixed : ∀ item ∈ items, item.fold = item) :
    foldAll items = items := by
  induction items with
  | nil => rfl
  | cons item rest ih =>
    rw [foldAll, fixed item List.mem_cons_self,
      ih fun item member => fixed item (List.mem_cons_of_mem _ member)]

theorem constants?_eq_none {items : List Expr} {item : Expr} (member : item ∈ items)
    (unknown : item.constant? = none) : constants? items = none := by
  induction items with
  | nil => cases member
  | cons first rest ih =>
    rw [constants?, List.mapM_cons]
    rcases List.mem_cons.mp member with rfl | member
    · rw [unknown]; rfl
    · have later := ih member
      rw [constants?] at later
      rw [later]
      cases first.constant? <;> rfl

theorem mergeSegments_segments {template : Plain} {segments : List Expr}
    (found : segments? template = some segments) : mergeSegments segments = segments := by
  induction template generalizing segments with
  | last literal =>
    cases found
    unfold literalSegment
    split <;> rfl
  | more literal hole rest ih =>
    obtain ⟨expr, first, found⟩ := Option.bind_eq_some_iff.mp found
    obtain ⟨others, later, rfl⟩ := Option.map_eq_some_iff.mp found
    have kept := ih later
    unfold literalSegment
    rcases holeExpr?_cases first with ⟨name, rfl⟩ | ⟨family, index, rfl⟩ <;>
      split <;> simp [mergeSegments, kept]

/-- Nothing of a template is known beforehand but its literals. -/
theorem fold_templateExpr {template : Plain} {expr : Expr}
    (found : templateExpr? template = some expr) : expr.fold = expr := by
  cases template with
  | last literal => cases found; rfl
  | more literal hole rest =>
    obtain ⟨segments, listed, rfl⟩ := Option.map_eq_some_iff.mp found
    have fixed : foldAll segments = segments := by
      apply foldAll_eq_self
      intro segment member
      rcases mem_segments? listed member with ⟨hole, expr⟩ | ⟨literal, _, rfl⟩
      · exact fold_holeExpr expr
      · rfl
    have hasHole : ∃ expr ∈ segments, expr.constant? = none := by
      obtain ⟨expr, first, tail⟩ := Option.bind_eq_some_iff.mp listed
      obtain ⟨others, _, rfl⟩ := Option.map_eq_some_iff.mp tail
      refine ⟨expr, List.mem_append_right _ List.mem_cons_self, ?_⟩
      rcases holeExpr?_cases first with ⟨name, rfl⟩ | ⟨family, index, rfl⟩ <;> rfl
    obtain ⟨expr, member, unknown⟩ := hasHole
    rw [Expr.fold, fixed, foldJoined, constants?_eq_none member unknown]
    exact congrArg Expr.joined (mergeSegments_segments listed)

/-! ## Evaluating -/

variable {known : Bindings} {machine : Machine} {count : Nat}

theorem evalExpr_constant (receiver value : Value) :
    Yields known 1 (evalExpr machine receiver (.constant value)) value := by
  rw [evalExpr]
  exact (Yields.unshared value).counting

theorem evalExpr_variable (receiver : Value) {name : String} {binding : Binding}
    (bound : binding? known name = some binding) :
    Yields known 1 (evalExpr machine receiver (.variable name)) binding.value := by
  rw [evalExpr]
  have looked : Yields known 0 (do
      let held ← lookUp name
      pure held.value) binding.value :=
    .followed (.lookUp bound) (.pure _)
  exact looked.counting

theorem run_variable {name : String} {binding : Binding}
    (bound : binding? known name = some binding) (functions : List Function) (answers : Answers) :
    ((⟨.variable name, functions⟩ : Compiled).run answers known).1 = .ok binding.value :=
  (Yields.run (evalExpr_variable .unit bound).counting).trans (if_pos (by decide))

theorem evalExpr_segment (receiver : Value) {family : String} {items : List Value} {index : Int}
    {item : Value} (bound : binding? known family = some (.fixed family (.array items)))
    (found : itemAt? items index = some item) :
    Yields known 2 (evalExpr machine receiver
      (.chain (.variable family) [.index false (.constant (.int index))])) item := by
  have ready : Yields known 1 (evalSteps machine receiver [.index false (.constant (.int index))])
      [.index false (.int index)] := by
    have position : Yields known 1
        (evalStep machine receiver (.index false (.constant (.int index))))
        (.index false (.int index)) := by
      rw [evalStep]
      exact .followed (evalExpr_constant receiver (.int index)) (.pure _)
    have nothing : Yields known 0 (evalSteps machine receiver []) [] := by
      rw [evalSteps]
      exact .pure []
    rw [evalSteps]
    exact .followed position (.followed nothing (.pure _))
  have walked : ∃ after, ∀ effects, walk machine.calls (.array items) true
      [.index false (.int index)] effects = (.ok (item, after), effects) := by
    have part : indexed (.array items) (.int index) = .ok item := by rw [indexed, found]
    refine ⟨withIndexed (.array items) (.int index) item, fun effects => ?_⟩
    simp only [walk, ReadyStep.isOptional, Bool.false_and, Bool.false_eq_true, part]
    rfl
  obtain ⟨after, walked⟩ := walked
  have whole : Yields known 1 (do
      let ready ← evalSteps machine receiver [.index false (.constant (.int index))]
      let held ← lookUp family
      let walked ← perform (walk machine.calls held.value held.constant ready)
      leave family held.constant (some walked.2)
      unshared walked.1) item :=
    .followed ready (.followed (.lookUp bound) (.followed (.perform walked)
      (.followed (.pure ()) (.unshared item))))
  rw [evalExpr]
  · exact whole.counting
  · rintro optional ⟨⟩

theorem evalAll_cons (receiver : Value) {item : Expr} {rest : List Expr} {value : Value}
    {values : List Value} {other : Nat}
    (first : Yields known count (evalExpr machine receiver item) value)
    (others : Yields known other (evalAll machine receiver rest) values) :
    Yields known (count + other) (evalAll machine receiver (item :: rest)) (value :: values) := by
  rw [evalAll]
  exact .bind first (.followed others (.pure _))

/-- A text is as long as the limit of texts and of operations lets it be. -/
theorem evalExpr_joined (receiver : Value) {segments : List Expr} {values : List Value}
    (yields : Yields known count (evalAll machine receiver segments) values) {memory : Memory}
    (bound : memory.bindings = known) (within : memory.operations ≤ maxOperations) :
    (evalExpr machine receiver (.joined segments) memory).1 =
      if memory.operations + (count + 1) ≤ maxOperations then
        (boundedText (String.join (values.map Value.printed))).mapError .fault
      else .error (.fault .tooManyOperations) := by
  rw [evalExpr]
  rcases Nat.lt_or_ge memory.operations maxOperations with room | full
  · have counts : memory.counted.operations = memory.operations + 1 := rfl
    rw [counting_of_lt _ room, bind_eq]
    by_cases enough : memory.operations + (count + 1) ≤ maxOperations
    · obtain ⟨shared, ran⟩ := yields.gives memory.counted bound (by omega)
      rw [ran, if_pos enough]
      dsimp only
      cases boundedText (String.join (values.map Value.printed)) with
      | ok value => rfl
      | error fault => rfl
    · have stopped := yields.stops memory.counted bound (by omega) (by omega)
      cases ran : evalAll machine receiver segments memory.counted with
      | mk outcome after =>
        rw [ran] at stopped
        cases stopped
        exact (if_neg enough).symm
  · rw [counting_of_le _ full, if_neg (by omega)]

theorem run_joined {segments : List Expr} {functions : List Function} {answers : Answers}
    {values : List Value}
    (yields : Yields known count (evalAll (machineAt functions answers maxCalls) .unit segments)
      values) :
    ((⟨.joined segments, functions⟩ : Compiled).run answers known).1 =
      if count + 2 ≤ maxOperations then boundedText (String.join (values.map Value.printed))
      else .error .tooManyOperations := by
  have room : (⟨known, false, .none⟩ : Memory).operations < maxOperations := Nat.zero_lt_succ _
  have outcome : (evalExpr (machineAt functions answers maxCalls) .unit (.joined segments)
      (Memory.counted ⟨known, false, .none⟩)).1 = _ :=
    evalExpr_joined .unit yields rfl room
  have start : (Memory.counted ⟨known, false, .none⟩).operations + (count + 1) = count + 2 :=
    Nat.add_comm 1 (count + 1)
  rw [Compiled.run_eq, Compiled.evaluate, counting_of_lt _ room, outcome, start]
  by_cases enough : count + 2 ≤ maxOperations
  · rw [if_pos enough, if_pos enough]
    cases boundedText (String.join (values.map Value.printed)) with
    | ok value => rfl
    | error fault => rfl
  · rw [if_neg enough, if_neg enough]
    rfl

/-- A literal before other segments is part of their text. -/
theorem evalAll_literalSegment (receiver : Value) (literal : List Char) {others : List Expr}
    {values : List Value} (yields : Yields known count (evalAll machine receiver others) values) :
    ∃ total all, Yields known total (evalAll machine receiver (literalSegment literal ++ others))
        all ∧
      String.join (all.map Value.printed) =
        String.ofList literal ++ String.join (values.map Value.printed) := by
  unfold literalSegment
  split
  next empty =>
    refine ⟨count, values, yields, ?_⟩
    rw [List.isEmpty_iff.mp empty]
    simp
  next =>
    exact ⟨_, _, evalAll_cons receiver (evalExpr_constant receiver _) yields, String.join_cons⟩

/-- The values of the segments of a template, joined, are its text. -/
theorem evalAll_segments (receiver : Value) {template : Plain} {segments : List Expr}
    (found : segments? template = some segments) {value : Hole → Value}
    (bound : ∀ hole ∈ template.holes, ∀ expr, holeExpr? hole = some expr →
      ∃ count, Yields known count (evalExpr machine receiver expr) (value hole)) :
    ∃ count values, Yields known count (evalAll machine receiver segments) values ∧
      String.join (values.map Value.printed) =
        String.ofList (template.render fun hole => (value hole).printed.toList) := by
  induction template generalizing segments with
  | last literal =>
    cases found
    have nothing : Yields known 0 (evalAll machine receiver []) [] := by
      rw [evalAll]
      exact .pure []
    obtain ⟨count, all, yields, text⟩ := evalAll_literalSegment receiver literal nothing
    rw [List.append_nil] at yields
    refine ⟨count, all, yields, ?_⟩
    rw [text]
    simp [Plain.render]
  | more literal hole rest ih =>
    obtain ⟨expr, first, found⟩ := Option.bind_eq_some_iff.mp found
    obtain ⟨others, later, rfl⟩ := Option.map_eq_some_iff.mp found
    obtain ⟨_, values, yields, text⟩ :=
      ih later fun hole member => bound hole (List.mem_cons_of_mem _ member)
    obtain ⟨_, here⟩ := bound hole List.mem_cons_self expr first
    obtain ⟨count, all, yields, whole⟩ :=
      evalAll_literalSegment receiver literal (evalAll_cons receiver here yields)
    refine ⟨count, all, yields, ?_⟩
    rw [whole, List.map_cons, String.join_cons, text, Plain.render]
    simp [String.ofList_append]

/-! ## Writing the segments of a text -/

namespace Gives

variable {before middle after : Memory} {other : Nat}

theorem cons {item : Expr} {rest : List Expr} {value : Value}
    {outcome : Except Stop (List Value)}
    (first : Gives before count (evalExpr machine .unit item) (.ok value) middle)
    (others : Gives middle other (evalAll machine .unit rest) outcome after) :
    Gives before (count + other) (evalAll machine .unit (item :: rest))
      (outcome.map (value :: ·)) after := by
  rw [evalAll]
  cases outcome with
  | error stop => exact first.bind (others.bind_error _)
  | ok values => exact first.bind (others.followed (.pure after (value :: values)))

theorem cons_error {item : Expr} {stop : Stop}
    (first : Gives before count (evalExpr machine .unit item) (.error stop) after)
    (rest : List Expr) :
    Gives before count (evalAll machine .unit (item :: rest)) (.error stop) after := by
  rw [evalAll]
  exact first.bind_error _

theorem joined {segments : List Expr} {outcome : Except Stop (List Value)}
    (gives : Gives before count (evalAll machine .unit segments) outcome after) :
    Gives before (count + 1) (evalExpr machine .unit (.joined segments))
      (outcome.bind fun all => (boundedText (String.join (all.map Value.printed))).mapError .fault)
      after := by
  rw [evalExpr]
  apply Gives.counting
  cases outcome with
  | error stop => exact gives.bind_error _
  | ok values =>
    apply gives.followed
    have lifted := Gives.liftExcept after (boundedText (String.join (values.map Value.printed)))
    rw [Except.bind]
    cases content : boundedText (String.join (values.map Value.printed)) with
    | error fault =>
      rw [content] at lifted
      exact lifted.bind_error _
    | ok value =>
      rw [content] at lifted
      exact lifted.followed (.unshared after value)

end Gives

/-- Segments write a text, or stop, in so many operations. Constants are there at once, every other
segment is evaluated, whatever was counted before it. -/
inductive Writes (machine : Machine) : Memory → Nat → List Expr → Except Stop String → Prop where
  | nil (before : Memory) : Writes machine before 0 [] (.ok "")
  | constant {before middle : Memory} {count : Nat} {rest : List Expr}
      {outcome : Except Stop String} (value : Value) : before.Like middle →
      Writes machine middle count rest outcome →
      Writes machine before (count + 1) (.constant value :: rest)
        (outcome.map (value.printed ++ ·))
  | hole {before middle : Memory} {count other : Nat} {body : Expr} {value : Value}
      {rest : List Expr} {outcome : Except Stop String} : body.constant? = none →
      Gives before count (evalExpr machine .unit body) (.ok value) middle →
      Writes machine middle other rest outcome →
      Writes machine before (count + other) (body :: rest) (outcome.map (value.printed ++ ·))
  | stop {before after : Memory} {count : Nat} {body : Expr} {stop : Stop} (rest : List Expr) :
      body.constant? = none → Gives before count (evalExpr machine .unit body) (.error stop) after →
      Writes machine before count (body :: rest) (.error stop)

theorem map_empty_append (outcome : Except Stop String) : outcome.map ("" ++ ·) = outcome := by
  cases outcome <;> simp [Except.map]

/-- The text of all segments, unless it is too long. -/
def writtenOutcome : Except Stop String → Except Fault Value
  | .ok content => boundedText content
  | .error stop => stop.outcome

namespace Writes

variable {before : Memory} {segments : List Expr} {outcome : Except Stop String}

theorem of_like {start : Memory} (like : start.Like before)
    (writes : Writes machine before count segments outcome) :
    Writes machine start count segments outcome := by
  cases writes with
  | nil => exact .nil start
  | constant value same rest => exact .constant value (like.trans same) rest
  | hole unknown gives rest => exact .hole unknown (gives.of_like like) rest
  | stop rest unknown gives => exact .stop rest unknown (gives.of_like like)

/-- Evaluating the segments gives the values of the text. -/
theorem gives (writes : Writes machine before count segments outcome) :
    ∃ values after, Gives before count (evalAll machine .unit segments) values after ∧
      (values.map fun all => String.join (all.map Value.printed)) = outcome := by
  induction writes with
  | nil before =>
    refine ⟨.ok [], before, ?_, rfl⟩
    rw [evalAll]
    exact .pure before []
  | @constant before middle count rest outcome value like _ ih =>
    obtain ⟨values, after, later, text⟩ := ih
    have first : Gives before 1 (evalExpr machine .unit (.constant value)) (.ok value) before := by
      rw [evalExpr]
      exact (Gives.unshared before value).counting
    rw [← text, Nat.add_comm]
    exact ⟨_, after, first.cons (later.of_like like), by cases values <;> simp [Except.map]⟩
  | @hole before middle count other body value rest outcome _ first _ ih =>
    obtain ⟨values, after, later, text⟩ := ih
    rw [← text]
    exact ⟨_, after, first.cons later, by cases values <;> simp [Except.map]⟩
  | stop rest _ gives => exact ⟨_, _, gives.cons_error rest, rfl⟩

/-- A script that joins the segments takes two operations more than they do. -/
theorem run {functions : List Function} {answers : Answers}
    (writes : Writes (machineAt functions answers maxCalls) ⟨known, false, .none⟩ count segments
      outcome) (room : count + 2 ≤ maxOperations) :
    ((⟨.joined segments, functions⟩ : Compiled).run answers known).1 = writtenOutcome outcome := by
  obtain ⟨values, after, gives, text⟩ := writes.gives
  have joined : Gives ⟨known, false, .none⟩ (count + 2)
      (Compiled.evaluate ⟨.joined segments, functions⟩ answers)
      (values.bind fun all => (boundedText (String.join (all.map Value.printed))).mapError .fault)
      after :=
    gives.joined.counting
  rw [joined.run room, ← text]
  cases values with
  | error stop => rfl
  | ok all =>
    have bounded : settledOutcome
        ((boundedText (String.join (all.map Value.printed))).mapError .fault) =
          boundedText (String.join (all.map Value.printed)) := by
      cases boundedText (String.join (all.map Value.printed)) <;> rfl
    exact bounded

/-- A literal before other segments takes an operation, unless it is empty. -/
theorem literal (literal : List Char) (writes : Writes machine before count segments outcome) :
    Writes machine before ((literalSegment literal).length + count)
      (literalSegment literal ++ segments) (outcome.map (String.ofList literal ++ ·)) := by
  unfold literalSegment
  split
  next empty =>
    have same : outcome.map (String.ofList [] ++ ·) = outcome := map_empty_append outcome
    rw [List.isEmpty_iff.mp empty, List.length_nil, Nat.zero_add, List.nil_append, same]
    exact writes
  next =>
    rw [List.length_singleton, Nat.add_comm]
    exact .constant (.text (String.ofList literal)) (.refl before) writes

end Writes

theorem eq_text_of_boundedText {content : String} {value : Value}
    (bounded : boundedText content = .ok value) : value = .text content := by
  unfold boundedText at bounded
  split at bounded
  next => cases bounded
  next => cases bounded; rfl

/-- If a template has a value, it is the text of the literals and the values of the holes. -/
theorem run_template {template : Plain} {expr : Expr} (found : templateExpr? template = some expr)
    {answers : Answers} {value : Hole → Value}
    (bound : ∀ hole ∈ template.holes, ∀ expr, holeExpr? hole = some expr →
      ∃ count, Yields known count (evalExpr (machineAt [] answers maxCalls) .unit expr)
        (value hole))
    {result : Value} (ran : ((⟨expr, []⟩ : Compiled).run answers known).1 = .ok result) :
    result = .text (String.ofList (template.render fun hole => (value hole).printed.toList)) := by
  cases template with
  | last literal =>
    cases found
    have yields : Yields known 2 (Compiled.evaluate ⟨.constant (.text (String.ofList literal)), []⟩
        answers) (.text (String.ofList literal)) := (evalExpr_constant .unit _).counting
    rw [yields.run, if_pos (by decide)] at ran
    exact (Except.ok.inj ran).symm
  | more literal hole rest =>
    obtain ⟨segments, listed, rfl⟩ := Option.map_eq_some_iff.mp found
    obtain ⟨count, values, yields, text⟩ := evalAll_segments .unit listed bound
    rw [run_joined yields, text] at ran
    split at ran
    next => exact eq_text_of_boundedText ran
    next => cases ran

/-! ## Compiling -/

theorem holes_prepend (text : List Char) (template : Plain) :
    (template.prepend text).holes = template.holes := by
  cases template <;> rfl

theorem mem_holes_of_scripted {template : Plain} {hole : Hole}
    (member : hole ∈ template.scripted.holes) : hole ∈ template.holes := by
  induction template with
  | last literal => cases member
  | more literal next rest ih =>
    rw [Plain.scripted] at member
    split at member
    · rw [holes_prepend] at member
      exact List.mem_cons_of_mem _ (ih member)
    · rcases List.mem_cons.mp member with rfl | member
      · exact List.mem_cons_self
      · exact List.mem_cons_of_mem _ (ih member)

theorem compile?_hole {hole : Hole} (plain : hole.IsPlain) {script : Compiled}
    (compiled : compile? (String.ofList hole.inner.toList) = some script) :
    ∃ expr, holeExpr? hole = some expr ∧ script = ⟨expr, []⟩ := by
  obtain ⟨tokens, read, compiled⟩ := Option.bind_eq_some_iff.mp compiled
  obtain ⟨parsed, parses, compiled⟩ := Option.bind_eq_some_iff.mp compiled
  rw [String.toList_ofList, Script.lex?_hole plain] at read
  rw [parse?_holeTokens plain read] at parses
  obtain ⟨expr, found, rfl⟩ := Option.map_eq_some_iff.mp parses
  refine ⟨expr, found, ?_⟩
  rw [← Option.some.inj compiled, Compiled.fold, fold_holeExpr found]
  rfl

theorem compile?_template {template : Plain}
    (literals : ∀ literal ∈ template.literals, Template.IsLiteral literal)
    (holes : ∀ hole ∈ template.holes, hole.IsPlain)
    (begins : template.source.head? ≠ some '\n') {script : Compiled}
    (compiled : compile? (String.ofList
      ('\x60' :: Template.doubleTicks template.source ++ ['\x60'])) = some script) :
    ∃ expr, templateExpr? template.scripted = some expr ∧ script = ⟨expr, []⟩ := by
  obtain ⟨tokens, read, compiled⟩ := Option.bind_eq_some_iff.mp compiled
  obtain ⟨parsed, parses, compiled⟩ := Option.bind_eq_some_iff.mp compiled
  rw [String.toList_ofList, lex?_backTicks literals holes begins] at read
  rw [parse?_templateTokens (fun hole member => holes hole (mem_holes_of_scripted member)) read]
    at parses
  obtain ⟨expr, found, rfl⟩ := Option.map_eq_some_iff.mp parses
  refine ⟨expr, found, ?_⟩
  rw [← Option.some.inj compiled, Compiled.fold, fold_templateExpr found]
  rfl

end Script

end Recast
