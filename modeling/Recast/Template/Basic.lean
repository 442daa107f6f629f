import Recast.Script.Eval
import Recast.Template.Hole
import Recast.Template.Pieces

set_option autoImplicit false

/-!
# Templates

A template is its source text. What has been found out about it is kept with it: its pieces, and
its script once it has compiled.
-/

namespace Recast

inductive EvaluationCause where
  | script (fault : Script.Fault)
  | timeOutOfRange (seconds : Int)
deriving Repr, DecidableEq

def EvaluationCause.message : EvaluationCause → String
  | .script fault => fault.message
  | .timeOutOfRange seconds =>
    "event time " ++ String.ofList (Decimal.intText seconds) ++ " is out of range"

inductive TemplateError where
  | compilation (template : String)
  | evaluation (template : String) (cause : EvaluationCause)
deriving Repr, DecidableEq

def TemplateError.kind : TemplateError → String
  | .compilation _ => "compilation"
  | .evaluation _ _ => "evaluation"

def TemplateError.template : TemplateError → String
  | .compilation template => template
  | .evaluation template _ => template

def TemplateError.message : TemplateError → String
  | .compilation template => "Failed to compile template '" ++ template ++ "': <syntax>"
  | .evaluation template cause =>
    "Failed to evaluate template '" ++ template ++ "': " ++ cause.message

structure Template where
  source : String
  pieces? : Option (List Template.Piece)
  script? : Option Script.Compiled

namespace Template

def ofSource (source : String) : Template :=
  ⟨source, none, none⟩

def withPieces (template : Template) : List Piece × Template :=
  match template.pieces? with
  | some pieces => (pieces, template)
  | none =>
    let pieces := pieces template.source
    (pieces, { template with pieces? := some pieces })

/-- The script of a template, which is then known. A failure is not remembered. -/
def withScript (typecast : Bool) (template : Template) :
    Except TemplateError Script.Compiled × Template :=
  match template.script? with
  | some script => (.ok script, template)
  | none =>
    match Script.compile? (String.ofList (rewrite typecast template.source.toList)) with
    | some script => (.ok script, { template with script? := some script })
    | none => (.error (.compilation template.source), template)

end Template

end Recast
