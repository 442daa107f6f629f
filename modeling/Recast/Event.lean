import Recast.Json.Printer

set_option autoImplicit false

/-!
# Events

A tagged record with a time in seconds.
-/

namespace Recast

abbrev Record := Assoc Json.Value

structure Event where
  tag : String
  time : Int
  record : Record
deriving Inhabited, Repr

def Event.toJson (event : Event) : Json.Value :=
  .object [("tag", .text event.tag), ("time", .int event.time), ("record", .object event.record)]

def Event.line (event : Event) : List Char :=
  event.toJson.write

end Recast
