import Recast.Assoc

set_option autoImplicit false

/-!
# JSON values

Objects keep the order of their entries, and integers stay apart from doubles.
-/

namespace Recast.Json

/-- A JSON value. The reader builds objects whose keys are distinct. -/
inductive Value where
  | null
  | bool (flag : Bool)
  | int (number : Int)
  | float (number : Float)
  | text (content : String)
  | array (items : List Value)
  | object (entries : List (String × Value))
deriving Inhabited, Repr

/-- Why a text is no JSON value of the wanted shape: it ends early, it breaks the grammar, or it
is well-formed and of another shape. -/
inductive Fault where
  | truncated
  | malformed
  | mismatched
deriving Inhabited, Repr, DecidableEq

end Recast.Json
