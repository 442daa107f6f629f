import Recast.Script.Expr
import Recast.Script.Operator

set_option autoImplicit false

/-!
# Constant folding

Parts of an expression that are known before it is evaluated. Folding is part of the meaning: a
text all of whose segments are constant is written with literals, and a known side of a logical
operator leaves the other side unchecked.
-/

namespace Recast.Script

def Expr.constant? : Expr → Option Value
  | .constant value => some value
  | _ => none

def constants? (items : List Expr) : Option (List Value) :=
  items.mapM Expr.constant?

mutual

def Expr.isPlain : Expr → Bool
  | .constant _ => true
  | .variable _ => true
  | .joined segments => arePlain segments
  | .array items => arePlain items
  | .map entries => arePlainEntries entries
  | .both left right => left.isPlain && right.isPlain
  | .either left right => left.isPlain && right.isPlain
  | .fallback left right => left.isPlain && right.isPlain
  | _ => false

def arePlain : List Expr → Bool
  | [] => true
  | item :: rest => item.isPlain && arePlain rest

def arePlainEntries : List (String × Expr) → Bool
  | [] => true
  | (_, item) :: rest => item.isPlain && arePlainEntries rest

end

def mergeSegments : List Expr → List Expr
  | [] => []
  | segment :: rest =>
    match segment, mergeSegments rest with
    | .constant .unit, rest => rest
    | .constant (.text left), .constant (.text right) :: rest =>
      .constant (.text (left ++ right)) :: rest
    | segment, rest => segment :: rest

def foldJoined (segments : List Expr) : Expr :=
  match constants? segments with
  | some values => .constant (.text (String.join (values.map Value.constantText)))
  | none => .joined (mergeSegments segments)

def foldArray (items : List Expr) : Expr :=
  match constants? items with
  | some values => .constant (.array values)
  | none => .array items

def foldMap (entries : List (String × Expr)) : Expr :=
  match constants? (entries.map Prod.snd) with
  | some values => .constant (.map (sortedMap ((entries.map Prod.fst).zip values)))
  | none => .map entries

def foldBoth : Expr → Expr → Expr
  | .constant (.bool true), right => right
  | .constant (.bool false), _ => .constant (.bool false)
  | left, .constant (.bool true) => left
  | left, right => .both left right

def foldEither : Expr → Expr → Expr
  | .constant (.bool false), right => right
  | .constant (.bool true), _ => .constant (.bool true)
  | left, .constant (.bool false) => left
  | left, right => .either left right

def foldFallback : Expr → Expr → Expr
  | .constant .unit, right => right
  | .constant value, _ => .constant value
  | left, right => .fallback left right

def foldOperator (sign : String) (left right : Expr) : Expr :=
  match left, right with
  | .constant leftValue, .constant rightValue =>
    match basicOperator? sign leftValue rightValue with
    | some (.ok value) => .constant value
    | _ => .operator sign left right
  | _, _ => .operator sign left right

def foldChoice : Expr → Expr → Expr → Expr
  | .constant (.bool true), positive, _ => positive
  | .constant (.bool false), _, negative => negative
  | condition, positive, negative => .choice condition positive negative

def itemAt? {α : Type} (items : List α) (position : Int) : Option α :=
  let resolved := if position < 0 then Int.ofNat items.length + position else position
  if 0 ≤ resolved then items[resolved.toNat]? else none

def foldChain (base : Expr) (steps : List Step) : Expr :=
  match base, steps with
  | .array items, [.index _ (.constant (.int position))] =>
    match itemAt? items position with
    | some item => if arePlain items then item else .chain base steps
    | none => .chain base steps
  | .constant (.array items), [.index _ (.constant (.int position))] =>
    match itemAt? items position with
    | some item => .constant item
    | none => .chain base steps
  | .map entries, [.property _ name] =>
    if arePlainEntries entries then (entries.lookup name).getD (.constant .unit)
    else .chain base steps
  | .map entries, [.index _ (.constant (.text name))] =>
    if arePlainEntries entries then (entries.lookup name).getD (.constant .unit)
    else .chain base steps
  | .constant (.map entries), [.property _ name] =>
    .constant ((entries.lookup name).getD .unit)
  | .constant (.map entries), [.index _ (.constant (.text name))] =>
    .constant ((entries.lookup name).getD .unit)
  | .constant (.text content), [.index _ (.constant (.int position))] =>
    match itemAt? content.toList position with
    | some letter => .constant (.char letter)
    | none => .chain base steps
  | _, _ => .chain base steps

mutual

def Expr.fold : Expr → Expr
  | .constant value => .constant value
  | .joined segments => foldJoined (foldAll segments)
  | .variable name => .variable name
  | .self => .self
  | .array items => foldArray (foldAll items)
  | .map entries => foldMap (foldEntries entries)
  | .both left right => foldBoth left.fold right.fold
  | .either left right => foldEither left.fold right.fold
  | .fallback left right => foldFallback left.fold right.fold
  | .operator sign left right => foldOperator sign left.fold right.fold
  | .call name arguments => .call name (foldAll arguments)
  | .chain base steps => foldChain base.fold (foldSteps steps)
  | .choice condition positive negative =>
    foldChoice condition.fold positive.fold negative.fold
  | .select subject cases otherwise =>
    .select subject.fold (foldCases cases) otherwise.fold
  | .assign sign target value => .assign sign target value.fold
  | .function index captured => .function index captured
  | .block statements => .block (foldAll statements)
  | .declare name constant value => .declare name constant value.fold
  | .loop bodyFirst wanted condition body => .loop bodyFirst wanted condition.fold body.fold
  | .each item counter source body => .each item counter source.fold body.fold
  | .jump jump value => .jump jump value.fold
  | .attempt body name handler => .attempt body.fold name handler.fold

def foldAll : List Expr → List Expr
  | [] => []
  | item :: rest => item.fold :: foldAll rest

def foldEntries : List (String × Expr) → List (String × Expr)
  | [] => []
  | (key, item) :: rest => (key, item.fold) :: foldEntries rest

def foldCases : List (List Value × Expr × Expr) → List (List Value × Expr × Expr)
  | [] => []
  | (values, guard, item) :: rest => (values, guard.fold, item.fold) :: foldCases rest

def foldSteps : List Step → List Step
  | [] => []
  | step :: rest => step.fold :: foldSteps rest

def Step.fold : Step → Step
  | .property optional name => .property optional name
  | .index optional position => .index optional position.fold
  | .method optional name arguments => .method optional name (foldAll arguments)

end

def Compiled.fold (script : Compiled) : Compiled :=
  ⟨script.body.fold, script.functions.map fun function => ⟨function.parameters, function.body.fold⟩⟩

end Recast.Script
