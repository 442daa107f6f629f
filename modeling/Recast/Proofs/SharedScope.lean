import Recast.Proofs.Assembly
import Recast.Proofs.EvalSteps

set_option autoImplicit false

/-!
# One scope for many templates

The templates of an event are expanded one after another in one scope. A script that evaluates no
text changes nothing in it but marks the variables that its functions capture as shared, and a later
script sees a mark only if it asks for it.
-/

namespace Recast

namespace Script

/-! ## Bindings up to their marks -/

def Binding.unmark (names : List String) (binding : Binding) : Binding :=
  if binding.name ∈ names then { binding with shared := false } else binding

/-- Bindings that differ at most in whether variables of the given names are shared. -/
def Alike (names : List String) (left right : Bindings) : Prop :=
  left.map (Binding.unmark names) = right.map (Binding.unmark names)

def Sealed (known : Bindings) : Prop :=
  ∀ binding ∈ known, binding.constant = true

variable {names others : List String} {left right : Bindings}

theorem Binding.name_unmark (names : List String) (binding : Binding) :
    (binding.unmark names).name = binding.name := by
  unfold Binding.unmark
  split <;> rfl

theorem Binding.constant_unmark (names : List String) (binding : Binding) :
    (binding.unmark names).constant = binding.constant := by
  unfold Binding.unmark
  split <;> rfl

theorem Binding.unmark_unmark (within : names ⊆ others) (binding : Binding) :
    (binding.unmark names).unmark others = binding.unmark others := by
  rw [Binding.unmark, binding.name_unmark, Binding.unmark, Binding.unmark]
  split
  next =>
    split
    next => rfl
    next => rfl
  next absent => rw [if_neg fun member => absent (within member)]

/-- Bindings that unmarking makes equal differ at most in their mark. -/
theorem Binding.eq_of_unmark {first second : Binding}
    (same : first.unmark names = second.unmark names) :
    first = { second with shared := first.shared } ∧ (first.name ∉ names → first = second) := by
  have name : first.name = second.name := by
    rw [← first.name_unmark names, same, second.name_unmark]
  obtain ⟨name, value, constant, shared⟩ := first
  obtain ⟨_, _, _, _⟩ := second
  cases name
  unfold Binding.unmark at same
  dsimp only at same
  split at same
  next member =>
    cases same
    exact ⟨rfl, fun absent => absurd member absent⟩
  next =>
    cases same
    exact ⟨rfl, fun _ => rfl⟩

theorem Alike.eq (alike : Alike [] left right) : left = right := by
  have unmarked : ∀ known : Bindings, known.map (Binding.unmark []) = known := by
    intro known
    exact (List.map_congr_left fun _ _ => rfl).trans (List.map_id known)
  rw [← unmarked left, alike, unmarked]

theorem Alike.length (alike : Alike names left right) : left.length = right.length := by
  have lengths := congrArg List.length alike
  rwa [List.length_map, List.length_map] at lengths

theorem Alike.mono (alike : Alike names left right) (within : names ⊆ others) :
    Alike others left right := by
  have twice : ∀ known : Bindings, known.map (Binding.unmark others) =
      (known.map (Binding.unmark names)).map (Binding.unmark others) := by
    intro known
    rw [List.map_map]
    exact List.map_congr_left fun binding _ => (binding.unmark_unmark within).symm
  rw [Alike, twice left, alike, ← twice]

theorem Alike.sealed (alike : Alike names left right) (closed : Sealed left) : Sealed right := by
  intro binding member
  have unmarked : binding.unmark names ∈ left.map (Binding.unmark names) := by
    rw [alike]
    exact List.mem_map_of_mem member
  obtain ⟨other, known, same⟩ := List.mem_map.mp unmarked
  rw [← binding.constant_unmark names, ← same, other.constant_unmark]
  exact closed other known

theorem name_of_binding? {known : Bindings} {name : String} {binding : Binding}
    (found : binding? known name = some binding) : binding.name = name := by
  rw [binding?] at found
  have named := List.find?_some found
  exact eq_of_beq named

theorem binding?_unmark (known : Bindings) (name : String) :
    binding? (known.map (Binding.unmark names)) name =
      (binding? known name).map (Binding.unmark names) := by
  rw [binding?, List.find?_map, binding?]
  congr 2
  funext binding
  exact congrArg (· == name) (binding.name_unmark names)

theorem Alike.binding? (alike : Alike names left right) (name : String) :
    (binding? left name).map (Binding.unmark names) =
      (binding? right name).map (Binding.unmark names) := by
  rw [← binding?_unmark, ← binding?_unmark, alike]

theorem Alike.updateBinding (alike : Alike names left right) (name : String)
    {change : Binding → Binding}
    (congruent : ∀ first second : Binding, first.unmark names = second.unmark names →
      (change first).unmark names = (change second).unmark names) :
    Alike names (updateBinding name change left) (updateBinding name change right) := by
  induction left generalizing right with
  | nil =>
    obtain rfl := List.map_eq_nil_iff.mp alike.symm
    exact alike
  | cons first left ih =>
    cases right with
    | nil => cases alike
    | cons second right =>
      obtain ⟨same, alike⟩ := List.cons.inj alike
      have name : first.name = second.name := by
        rw [← first.name_unmark names, same, second.name_unmark]
      rw [Script.updateBinding, Script.updateBinding, name]
      split
      next => exact congrArg₂ List.cons (congruent first second same) alike
      next => exact congrArg₂ List.cons same (ih alike)

/-- A mark on a variable of a given name is not seen. -/
theorem alike_mark (known : Bindings) {name : String} (member : name ∈ names) :
    Alike names known
      (updateBinding name (fun binding => { binding with shared := true }) known) := by
  induction known with
  | nil => rfl
  | cons first rest ih =>
    rw [updateBinding]
    split
    next same =>
      refine congrArg (· :: rest.map (Binding.unmark names)) ?_
      have known : first.name ∈ names := same ▸ member
      rw [Binding.unmark, Binding.unmark, if_pos known, if_pos known]
    next => exact congrArg (first.unmark names :: ·) ih

/-! ## What a script leaves -/

/-- Among constants, the computation does nothing but mark variables of the given names. -/
def Marks (names : List String) {α : Type} (run : Eval α) : Prop :=
  ∀ before, Sealed before.bindings → Alike names before.bindings (run before).2.bindings

section Marks

variable {α β : Type}

theorem Marks.bind {first : Eval α} {next : α → Eval β} (begins : Marks names first)
    (goes : ∀ value, Marks names (next value)) : Marks names (first >>= next) := by
  intro before closed
  have between := begins before closed
  rw [bind_eq]
  split
  next value after ran =>
    rw [ran] at between
    exact between.trans (goes value after (between.sealed closed))
  next stop after ran =>
    rw [ran] at between
    exact between

/-- A computation that leaves the bindings alone. -/
theorem Marks.of_still {run : Eval α}
    (still : ∀ before, (run before).2.bindings = before.bindings) : Marks names run := by
  intro before _
  rw [still]
  rfl

/-- What is bound among constants is fixed. -/
theorem Marks.lookUp {name : String} {next : Held → Eval α}
    (goes : ∀ held, held.IsFixed → Marks names (next held)) :
    Marks names (lookUp name >>= next) := by
  intro before closed
  rw [bind_eq, Script.lookUp]
  cases found : binding? before.bindings name with
  | none => rfl
  | some binding =>
    have constant := closed binding (List.mem_of_find?_eq_some found)
    have fixed : binding.held.IsFixed := ⟨constant, by rw [Binding.held, constant]; rfl⟩
    exact goes binding.held fixed { before with shared := binding.shared } closed

end Marks

/-- An evaluation may share these variables, and ask whatever it likes, if it binds nothing. -/
def Permits.sharing (names : List String) : Permits :=
  ⟨False, False, False, True, (· ∈ names), fun _ => True⟩

theorem actionLaws_any : ActionLaws (fun _ => True) where
  settled _ := trivial
  operate := trivial
  ask := trivial
  printLine _ := trivial
  attempted _ := trivial
  bind _ _ := trivial

theorem stepLaws_marks (names : List String) :
    StepLaws (Permits.sharing names) (fun _ => True) (@Marks names) where
  actions := actionLaws_any
  perform _ := .of_still fun _ => rfl
  bind := Marks.bind
  lookUp := by
    intro α name next goes
    exact .lookUp fun held fixed => goes held (Or.inl fixed)
  inquire := by
    intro α name next _ goes
    apply Marks.lookUp
    intro held fixed
    apply Marks.bind (Marks.of_still fun _ => rfl)
    exact fun flag => goes held flag (Or.inl fixed)
  wasShared _ := .of_still fun _ => rfl
  isBound _ := .of_still fun _ => rfl
  unshared _ := .of_still fun _ => rfl
  store := fun impossible => impossible.elim
  share name member before _ := alike_mark before.bindings member
  add := fun impossible => impossible.elim
  inBlock := by
    intro α run keeps before closed
    have alike := keeps before closed
    have dropped : (inBlock run before).2.bindings = (run before).2.bindings := by
      dsimp only [inBlock]
      rw [alike.length, Nat.sub_self, List.drop_zero]
    rw [dropped]
    exact alike
  examined keeps := keeps

/-- Constants that differ at most in whether variables of the given names are shared. -/
def AlikeSealed (names : List String) (left right : Bindings) : Prop :=
  Alike names left right ∧ Sealed left

/-- The same is bound to a name, but for the mark. -/
theorem AlikeSealed.held (alike : AlikeSealed names left right) {name : String} {binding : Binding}
    (found : binding? left name = some binding) :
    ∃ other, binding? right name = some other ∧ binding.held = other.held ∧
      binding.held.IsFixed ∧ (name ∉ names → binding = other) := by
  have bound := alike.1.binding? name
  rw [found] at bound
  obtain ⟨other, rightFound, same⟩ := Option.map_eq_some_iff.mp bound.symm
  obtain ⟨marked, equal⟩ := Binding.eq_of_unmark same.symm
  have constant := alike.2 binding (List.mem_of_find?_eq_some found)
  have fixed : binding.held.IsFixed := ⟨constant, by rw [Binding.held, constant]; rfl⟩
  refine ⟨other, rightFound, ?_, fixed, fun absent => equal (name_of_binding? found ▸ absent)⟩
  have value : binding.value = other.value := by rw [marked]
  have otherConstant : other.constant = true := by rwa [marked] at constant
  rw [Binding.held, Binding.held, value, constant, otherConstant, Bool.true_or, Bool.true_or]

theorem AlikeSealed.absent (alike : AlikeSealed names left right) {name : String}
    (absent : Script.binding? left name = none) : Script.binding? right name = none := by
  have bound := alike.1.binding? name
  rw [absent] at bound
  exact Option.map_eq_none_iff.mp bound.symm

/-- The computation has the same outcome among constants whether variables of the given names are
shared or not. -/
def Indifferent (names : List String) {α : Type} (run : Eval α) : Prop :=
  Respects (AlikeSealed names) False run

theorem Indifferent.lookUp {α : Type} {name : String} {next : Held → Eval α}
    (goes : ∀ held, held.IsFixed → Indifferent names (next held)) :
    Indifferent names (Script.lookUp name >>= next) := by
  intro left right related
  rw [bind_eq, bind_eq, Script.lookUp, Script.lookUp]
  cases found : binding? left.bindings name with
  | none =>
    rw [related.bindings.absent found]
    exact ⟨rfl, related⟩
  | some binding =>
    obtain ⟨other, rightFound, same, fixed, _⟩ := related.bindings.held found
    rw [rightFound]
    dsimp only
    rw [← same]
    exact goes binding.held fixed _ _ ⟨related.bindings, False.elim, related.effects⟩

theorem Indifferent.inquire {α : Type} {name : String} {next : Held → Bool → Eval α}
    (absent : name ∉ names)
    (goes : ∀ held flag, held.IsFixed → Indifferent names (next held flag)) :
    Indifferent names (Script.lookUp name >>= fun held => wasShared >>= next held) := by
  intro left right related
  rw [bind_eq, bind_eq, Script.lookUp, Script.lookUp]
  cases found : binding? left.bindings name with
  | none =>
    rw [related.bindings.absent found]
    exact ⟨rfl, related⟩
  | some binding =>
    obtain ⟨other, rightFound, _, fixed, same⟩ := related.bindings.held found
    rw [rightFound, ← same absent]
    exact goes binding.held binding.shared fixed _ _
      ⟨related.bindings, False.elim, related.effects⟩

/-- An evaluation may ask whether variables are shared that are none of these, if it binds
nothing. -/
def Permits.inquiring (names : List String) : Permits :=
  ⟨False, False, False, False, fun _ => True, (· ∉ names)⟩

theorem stepLaws_indifferent (names : List String) :
    StepLaws (Permits.inquiring names) (fun _ => True) (@Indifferent names) where
  actions := actionLaws_any
  perform _ := .perform _
  bind := fun begins goes => Respects.bind begins goes
  lookUp := by
    intro α name next goes
    exact .lookUp fun held fixed => goes held (Or.inl fixed)
  inquire := by
    intro α name next absent goes
    exact .inquire absent fun held flag fixed => goes held flag (Or.inl fixed)
  wasShared := fun impossible => impossible.elim
  isBound := by
    intro name left right related
    have bound : (binding? left.bindings name).isSome = (binding? right.bindings name).isSome := by
      rw [← Option.isSome_map, related.bindings.1.binding? name, Option.isSome_map]
    exact ⟨congrArg Except.ok bound, related⟩
  unshared := .unshared
  store := fun impossible => impossible.elim
  share := by
    intro name _
    apply Respects.change
    intro left right alike
    constructor
    · apply alike.1.updateBinding
      intro first second same
      rw [(Binding.eq_of_unmark same).1]
    · exact (alike_mark left (List.mem_singleton_self name)).sealed alike.2
  add := fun impossible => impossible.elim
  inBlock := by
    intro α run indifferent
    apply Respects.inBlock indifferent
    intro left right leftAfter rightAfter alike after
    constructor
    · rw [Alike, List.map_drop, List.map_drop, after.1, after.1.length, alike.1.length]
    · exact fun binding member => after.2 binding (List.mem_of_mem_drop member)
  examined := fun indifferent => Respects.examined indifferent

/-! ## Scripts -/

/-- The expression neither evaluates a text nor binds a name itself, as no hole does. -/
def Expr.bindsNothing (expr : Expr) : Bool :=
  expr.parts.all fun part => !part.isEvalCall && !part.bindsHere

/-- The expression asks of something else than a variable whether it is shared. -/
def Expr.asksValues (expr : Expr) : Bool :=
  expr.parts.any Expr.asksHere

theorem Expr.of_bindsNothing {expr part : Expr} (closed : expr.bindsNothing = true)
    (member : part ∈ expr.parts) : part.isEvalCall = false ∧ part.bindsHere = false := by
  have here := List.all_eq_true.mp closed part member
  simpa using here

theorem Expr.keeps_sharing {expr : Expr} (closed : expr.bindsNothing = true) :
    ∀ part ∈ expr.parts, part.Keeps (Permits.sharing expr.captures) := by
  intro part member
  obtain ⟨noText, noBinding⟩ := Expr.of_bindsNothing closed member
  constructor
  · exact fun evaluates => Bool.noConfusion (noText.symm.trans evaluates)
  · exact fun binds => Bool.noConfusion (noBinding.symm.trans binds)
  · exact fun _ => trivial
  · exact fun name captured => List.mem_flatMap_of_mem member captured
  · exact fun _ _ => trivial

theorem Expr.keeps_inquiring {expr : Expr} (closed : expr.bindsNothing = true)
    (variablesOnly : expr.asksValues = false) (unasked : ∀ name ∈ expr.asked, name ∉ names) :
    ∀ part ∈ expr.parts, part.Keeps (Permits.inquiring names) := by
  intro part member
  obtain ⟨noText, noBinding⟩ := Expr.of_bindsNothing closed member
  constructor
  · exact fun evaluates => Bool.noConfusion (noText.symm.trans evaluates)
  · exact fun binds => Bool.noConfusion (noBinding.symm.trans binds)
  · exact fun asks => List.any_eq_false.mp variablesOnly part member asks
  · exact fun _ _ => trivial
  · exact fun name asked => unasked name (List.mem_flatMap_of_mem member asked)

variable {script : Compiled}

/-- A script that binds nothing leaves constants as they are, but for the marks on the variables
that its functions capture. -/
theorem alike_run (answers : Answers) (closed : script.body.bindsNothing = true) {known : Bindings}
    (constants : Sealed known) :
    Alike script.body.captures known (script.run answers known).2.bindings := by
  have laws := stepLaws_marks script.body.captures
  have marks : Marks script.body.captures
      (evalExpr (machineAt script.functions answers maxCalls) .unit script.body) :=
    laws.evalExpr (fun _ _ _ _ => trivial) False.elim .unit script.body (Expr.keeps_sharing closed)
  exact laws.counting marks ⟨known, false, .none⟩ constants

/-- A script cannot see which of the given variables are shared: it asks for none of them, nor for
any value that might be one of theirs, nor evaluates a text that could, unless there are none. -/
structure Overlooks (names : List String) (script : Compiled) : Prop where
  blind : names = [] ∨ script.body.bindsNothing = true ∧ script.body.asksValues = false
  unasked : ∀ name ∈ script.body.asked, name ∉ names

theorem run_eq_of_overlooks (answers : Answers) (overlooks : Overlooks names script)
    (constants : Sealed left) (alike : Alike names left right) :
    (script.run answers left).1 = (script.run answers right).1 := by
  rcases overlooks.blind with rfl | ⟨closed, variablesOnly⟩
  · rw [alike.eq]
  · have laws := stepLaws_indifferent names
    have respects : Indifferent names
        (evalExpr (machineAt script.functions answers maxCalls) .unit script.body) :=
      laws.evalExpr (fun _ _ _ _ => trivial) False.elim .unit script.body
        (Expr.keeps_inquiring closed variablesOnly overlooks.unasked)
    exact congrArg settledOutcome (laws.counting respects ⟨left, false, .none⟩
      ⟨right, false, .none⟩ ⟨⟨alike, constants⟩, False.elim, rfl⟩).1

theorem Overlooks.append (first : Overlooks names script) (second : Overlooks others script) :
    Overlooks (names ++ others) script := by
  constructor
  · rcases first.blind with rfl | blind
    · exact second.blind
    · exact Or.inr blind
  · intro name asked member
    rcases List.mem_append.mp member with member | member
    · exact first.unasked name asked member
    · exact second.unasked name asked member

end Script

/-! ## Templates -/

open Script (Alike Sealed Overlooks)

/-- The earlier template binds nothing, and the later one cannot see which variables the functions
of the earlier one captured. -/
def Template.LeavesUnseen (typecast : Bool) (earlier later : Template) : Prop :=
  ∀ first, (earlier.withScript typecast).1 = .ok first → first.body.bindsNothing = true ∧
    ∀ second, (later.withScript typecast).1 = .ok second → Overlooks first.body.captures second

/-- The scope as it is built for a template after others: the machine answers what it is asked by
that template, instead of what the first one would ask. -/
def Scope.later (scope : Scope) (count : Nat) : Scope :=
  match scope with
  | .placeholders table => .placeholders table
  | .bindings known answers => .bindings known fun number => answers (number + count)

theorem sealed_eventBindings (event : Event) (hostname : String) :
    Sealed (eventBindings event hostname) := by
  intro binding member
  rw [eventBindings, List.mem_append, List.mem_reverse] at member
  rcases member with field | reserved
  · obtain ⟨_, _, rfl⟩ := List.mem_map.mp field
    rfl
  · simp only [List.mem_cons, List.not_mem_nil, or_false] at reserved
    rcases reserved with rfl | rfl | rfl | rfl | rfl <;> rfl

variable {settings : Settings} {template : Template} {known other : Script.Bindings}
  {answers : Nat → Script.Answers}

/-- Expanding a template among bindings runs its script, if it has one. -/
theorem expand_bindings (settings : Settings) (template : Template) (known : Script.Bindings)
    (answers : Nat → Script.Answers) :
    let expansion := (Scope.bindings known answers).expand settings template
    let later := fun number => answers (number + 1)
    (∀ error, (template.withScript settings.typecast).1 = .error error →
      expansion.outcome = .error error ∧ expansion.scope = .bindings known later) ∧
    ∀ script, (template.withScript settings.typecast).1 = .ok script →
      expansion.outcome = ((script.run (answers 0) known).1.mapError fun fault =>
        .evaluation (template.withScript settings.typecast).2.source (.script fault)).map
          Script.Value.toJson ∧
      expansion.scope = .bindings (script.run (answers 0) known).2.bindings later := by
  dsimp only
  rw [Scope.expand]
  cases template.withScript settings.typecast with
  | mk compiled after =>
    cases compiled with
    | error error =>
      constructor
      · rintro _ ⟨⟩
        exact ⟨rfl, rfl⟩
      · rintro _ ⟨⟩
    | ok script =>
      constructor
      · rintro _ ⟨⟩
      · rintro _ ⟨⟩
        exact ⟨rfl, rfl⟩

/-- Templates expanded one after another give what they give alone, if none of them can see that
the others were expanded before it. -/
theorem expandInTurn_bindings {names : List String} (constants : Sealed known)
    (alike : Alike names known other) {templates : List Template}
    (unseen : templates.Pairwise (Template.LeavesUnseen settings.typecast))
    (overlooks : ∀ template ∈ templates, ∀ script,
      (template.withScript settings.typecast).1 = .ok script → Overlooks names script) :
    expandInTurn settings (.bindings other answers) templates =
      templates.mapIdx fun number template =>
        (((Scope.bindings known answers).later number).expand settings template).outcome := by
  induction templates generalizing names other answers with
  | nil => rfl
  | cons template rest ih =>
    obtain ⟨leaves, unseen⟩ := List.pairwise_cons.mp unseen
    obtain ⟨here, later⟩ := List.forall_mem_cons.mp overlooks
    obtain ⟨fails, runs⟩ := expand_bindings settings template other answers
    obtain ⟨failsAlone, runsAlone⟩ := expand_bindings settings template known answers
    rw [expandInTurn, List.mapIdx_cons]
    cases compiled : (template.withScript settings.typecast).1 with
    | error error =>
      have same := (fails error compiled).1.trans (failsAlone error compiled).1.symm
      refine congrArg₂ List.cons same ?_
      rw [(fails error compiled).2, ih alike unseen later]
      rfl
    | ok script =>
      have same := Script.run_eq_of_overlooks (answers 0) (here script compiled)
        constants alike
      refine congrArg₂ List.cons ?_ ?_
      · exact (runs script compiled).1.trans (same ▸ (runsAlone script compiled).1.symm)
      rw [(runs script compiled).2]
      cases rest with
      | nil => rfl
      | cons next rest =>
        have closed := (leaves next List.mem_cons_self script compiled).1
        have after := Script.alike_run (answers 0) closed (alike.sealed constants)
        have both := (alike.mono (List.subset_append_left names script.body.captures)).trans
          (after.mono (List.subset_append_right names script.body.captures))
        refine (ih both unseen ?_).trans rfl
        intro template member second compiledSecond
        exact (later template member second compiledSecond).append
          ((leaves template member script compiled).2 second compiledSecond)

private theorem eval_hides_field :
    expandInTurn ⟨.expression, "h", true⟩
        (.bindings (eventBindings ⟨"a", 0, [("e", .text "let n=2"), ("n", .int 1)]⟩ "h")
          fun _ => .still)
        [.ofSource "$\x7beval(e)\x7d", .ofSource "$\x7bn\x7d"] = [.ok .null, .ok (.int 2)] := by
  cbv

end Recast
