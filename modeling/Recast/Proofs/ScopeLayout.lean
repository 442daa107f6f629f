import Mathlib
import Recast.Proofs.ModeAgreement
import Recast.Proofs.SharedScope

set_option autoImplicit false

/-!
# The layout of a scope

A script reaches the bindings of its event by their names only. In what order they were bound, what
they hide and how many there are makes no difference to it, whatever it evaluates: what it binds
itself lies above them, and each block drops no more than that.
-/

namespace Recast

namespace Script

/-! ## Bindings by name -/

/-- Each name is bound to the same. -/
def Agree (left right : Bindings) : Prop :=
  ∀ name, binding? left name = binding? right name

theorem binding?_cons (binding : Binding) (rest : Bindings) (name : String) :
    binding? (binding :: rest) name =
      if binding.name = name then some binding else binding? rest name := by
  rw [binding?, List.find?_cons, binding?]
  by_cases same : binding.name = name
  · simp [same]
  · have other : (binding.name == name) = false := beq_eq_false_iff_ne.mpr same
    simp [same, other]

theorem binding?_append (added base : Bindings) (name : String) :
    binding? (added ++ base) name = (binding? added name).or (binding? base name) :=
  List.find?_append

theorem binding?_updateBinding {change : Binding → Binding}
    (keeps : ∀ binding, (change binding).name = binding.name) (known : Bindings)
    (name other : String) :
    binding? (updateBinding name change known) other =
      if name = other then (binding? known other).map change else binding? known other := by
  induction known with
  | nil => simp [updateBinding, binding?]
  | cons binding rest ih =>
    rw [updateBinding, binding?_cons]
    split
    next here =>
      rw [binding?_cons, keeps, here]
      split <;> rfl
    next elsewhere =>
      rw [binding?_cons, ih]
      by_cases same : name = other
      · subst same
        simp [elsewhere]
      · simp [same]

theorem updateBinding_append (change : Binding → Binding) (added base : Bindings) (name : String) :
    updateBinding name change (added ++ base) =
      if (binding? added name).isSome then updateBinding name change added ++ base
      else added ++ updateBinding name change base := by
  induction added with
  | nil => rfl
  | cons binding rest ih =>
    rw [List.cons_append, updateBinding, updateBinding, binding?_cons]
    by_cases here : binding.name = name
    · simp [here]
    · rw [if_neg here, if_neg here, if_neg here, ih]
      split <;> rfl

theorem length_updateBinding (name : String) (change : Binding → Binding) (known : Bindings) :
    (updateBinding name change known).length = known.length := by
  induction known with
  | nil => rfl
  | cons binding rest ih =>
    rw [updateBinding]
    split
    next => rfl
    next => rw [List.length_cons, ih, List.length_cons]

theorem Agree.updateBinding {left right : Bindings} (agree : Agree left right) (name : String)
    {change : Binding → Binding} (keeps : ∀ binding, (change binding).name = binding.name) :
    Agree (updateBinding name change left) (updateBinding name change right) := by
  intro other
  rw [binding?_updateBinding keeps, binding?_updateBinding keeps, agree]

/-! ## Bindings above others -/

/-- The same has been added above `size` and above `others` bindings, by which each name is bound to
the same. -/
def SameAbove (size others : Nat) (left right : Bindings) : Prop :=
  ∃ added base other, left = added ++ base ∧ right = added ++ other ∧
    base.length = size ∧ other.length = others ∧ Agree base other

variable {size others : Nat} {left right : Bindings}

theorem Agree.sameAbove (agree : Agree left right) :
    SameAbove left.length right.length left right :=
  ⟨[], left, right, rfl, rfl, rfl, rfl, agree⟩

theorem SameAbove.agree (same : SameAbove size others left right) : Agree left right := by
  obtain ⟨added, base, other, rfl, rfl, _, _, agree⟩ := same
  intro name
  rw [binding?_append, binding?_append, agree]

theorem SameAbove.cons (same : SameAbove size others left right) (binding : Binding) :
    SameAbove size others (binding :: left) (binding :: right) := by
  obtain ⟨added, base, other, rfl, rfl, sized, otherSized, agree⟩ := same
  exact ⟨binding :: added, base, other, rfl, rfl, sized, otherSized, agree⟩

theorem SameAbove.updateBinding (same : SameAbove size others left right) (name : String)
    {change : Binding → Binding} (keeps : ∀ binding, (change binding).name = binding.name) :
    SameAbove size others (updateBinding name change left) (updateBinding name change right) := by
  obtain ⟨added, base, other, rfl, rfl, sized, otherSized, agree⟩ := same
  rw [updateBinding_append, updateBinding_append]
  split
  next => exact ⟨_, base, other, rfl, rfl, sized, otherSized, agree⟩
  next =>
    refine ⟨added, _, _, rfl, rfl, ?_, ?_, agree.updateBinding name keeps⟩
    · rw [length_updateBinding, sized]
    · rw [length_updateBinding, otherSized]

/-- What a block drops was added within it. -/
theorem SameAbove.drop {leftAfter rightAfter : Bindings} (same : SameAbove size others left right)
    (after : SameAbove size others leftAfter rightAfter) :
    SameAbove size others (leftAfter.drop (leftAfter.length - left.length))
      (rightAfter.drop (rightAfter.length - right.length)) := by
  obtain ⟨added, base, other, rfl, rfl, sized, otherSized, _⟩ := same
  obtain ⟨addedAfter, baseAfter, otherAfter, rfl, rfl, sizedAfter, otherSizedAfter, agree⟩ := after
  have first : (addedAfter ++ baseAfter).length - (added ++ base).length =
      addedAfter.length - added.length := by
    simp only [List.length_append, sized, sizedAfter]
    omega
  have second : (addedAfter ++ otherAfter).length - (added ++ other).length =
      addedAfter.length - added.length := by
    simp only [List.length_append, otherSized, otherSizedAfter]
    omega
  rw [first, second, List.drop_append_of_le_length (Nat.sub_le _ _),
    List.drop_append_of_le_length (Nat.sub_le _ _)]
  exact ⟨_, baseAfter, otherAfter, rfl, rfl, sizedAfter, otherSizedAfter, agree⟩

/-! ## Evaluation -/

/-- The computation cannot tell the layouts of two scopes apart. -/
def IgnoresLayout (size others : Nat) {α : Type} (run : Eval α) : Prop :=
  Respects (SameAbove size others) True run

theorem IgnoresLayout.lookUp (name : String) :
    IgnoresLayout size others (Script.lookUp name) := by
  intro left right related
  rw [Script.lookUp, Script.lookUp, related.bindings.agree name]
  cases binding? right.bindings name with
  | none => exact ⟨rfl, related⟩
  | some binding => exact ⟨rfl, related.bindings, fun _ => rfl, related.effects⟩

theorem IgnoresLayout.wasShared : IgnoresLayout size others Script.wasShared :=
  fun _ _ related => ⟨congrArg Except.ok (related.shared trivial), related⟩

theorem stepLaws_ignoresLayout (size others : Nat) :
    StepLaws Permits.everything (fun _ => True) (@IgnoresLayout size others) where
  actions := actionLaws_any
  perform _ := .perform _
  bind := fun begins goes => Respects.bind begins goes
  lookUp := by
    intro α name next goes
    exact Respects.bind (IgnoresLayout.lookUp name) fun held => goes held (Or.inr trivial)
  inquire := by
    intro α name next _ goes
    refine Respects.bind (IgnoresLayout.lookUp name) fun held => ?_
    exact Respects.bind IgnoresLayout.wasShared fun flag => goes held flag (Or.inr trivial)
  wasShared _ := .wasShared
  isBound := by
    intro name left right related
    have found := related.bindings.agree name
    exact ⟨congrArg (fun bound : Option Binding => Except.ok bound.isSome) found, related⟩
  unshared := .unshared
  store _ name value := .change fun same => same.updateBinding name fun _ => rfl
  share name _ := .change fun same => same.updateBinding name fun _ => rfl
  add _ name constant value := .change fun same => same.cons ⟨name, value, constant, false⟩
  inBlock respects := Respects.inBlock respects fun same after => same.drop after
  examined respects := Respects.examined respects

/-- A script gives the same and does the same besides among bindings by which each name is bound to
the same. -/
theorem Agree.run_eq (agree : Agree left right) (script : Compiled) (answers : Answers) :
    (script.run answers left).1 = (script.run answers right).1 ∧
      (script.run answers left).2.effects = (script.run answers right).2.effects := by
  have laws := stepLaws_ignoresLayout left.length right.length
  obtain ⟨outcome, after⟩ := laws.evaluate (fun _ _ _ => trivial) script answers
    ⟨left, false, .none⟩ ⟨right, false, .none⟩ ⟨agree.sameAbove, fun _ => rfl, rfl⟩
  exact ⟨congrArg settledOutcome outcome, after.effects⟩

end Script

open Script (Agree)

variable {settings : Settings}

/-! ## Templates -/

theorem Script.Agree.expand_eq {left right : Script.Bindings} (agree : Agree left right)
    (settings : Settings) (template : Template) (answers : Nat → Script.Answers) :
    ((Scope.bindings left answers).expand settings template).outcome =
      ((Scope.bindings right answers).expand settings template).outcome := by
  obtain ⟨leftFails, leftRuns⟩ := expand_bindings settings template left answers
  obtain ⟨rightFails, rightRuns⟩ := expand_bindings settings template right answers
  cases compiled : (template.withScript settings.typecast).1 with
  | error error => rw [(leftFails error compiled).1, (rightFails error compiled).1]
  | ok script =>
    rw [(leftRuns script compiled).1, (rightRuns script compiled).1, (agree.run_eq script _).1]

/-- The fields of an event that names can be bound to, the last one first. -/
def fieldBindings (event : Event) : Script.Bindings :=
  ((bindableFields event.record).map fun field =>
    Script.Binding.fixed field.1 (Script.Value.ofJson field.2)).reverse

theorem eventBindings_eq (event : Event) (hostname : String) :
    eventBindings event hostname = fieldBindings event ++ reservedBindings event hostname := rfl

theorem fieldBindings_eq (event : Event) :
    fieldBindings event = (bindableFields event.record.reverse).map fun field =>
      Script.Binding.fixed field.1 (Script.Value.ofJson field.2) := by
  rw [fieldBindings, ← List.map_reverse, bindableFields, bindableFields, List.filter_reverse]

/-- A name is bound to the field of that name if it can be bound at all. -/
theorem binding?_fieldBindings {event : Event} (distinct : (Assoc.keys event.record).Nodup)
    (name : String) :
    Script.binding? (fieldBindings event) name =
      if isBindable name then
        (Assoc.get? event.record name).map fun value =>
          Script.Binding.fixed name (Script.Value.ofJson value)
      else none := by
  rw [fieldBindings_eq]
  split
  next bindable => rw [binding?_fields _ bindable, Assoc.get?_reverse distinct]
  next unbindable =>
    rw [Script.binding?, List.find?_eq_none]
    intro binding member named
    obtain ⟨field, known, rfl⟩ := List.mem_map.mp member
    obtain ⟨_, bindable⟩ := List.mem_filter.mp known
    rw [← eq_of_beq named] at unbindable
    exact unbindable bindable

/-- Records whose fields are the same to a script, as far as they can be bound, bind every name to
the same. -/
theorem agree_fieldBindings {event other : Event} (distinct : (Assoc.keys event.record).Nodup)
    (otherDistinct : (Assoc.keys other.record).Nodup)
    (same : ∀ name, isBindable name = true →
      (Assoc.get? event.record name).map Script.Value.ofJson =
        (Assoc.get? other.record name).map Script.Value.ofJson) :
    Agree (fieldBindings event) (fieldBindings other) := by
  intro name
  rw [binding?_fieldBindings distinct, binding?_fieldBindings otherDistinct]
  split
  next bindable =>
    have values := congrArg (Option.map (Script.Binding.fixed name)) (same name bindable)
    simpa only [Option.map_map, Function.comp_def] using values
  next => rfl

/-! ## What scripts depend on -/

end Recast
