import Recast.Event
import Recast.Template.Basic
import Recast.Text.Blank

set_option autoImplicit false

/-!
# Fields and removed keys

The field map gives each outgoing key its template, in the order in which the keys were first
declared. Removed keys are deleted from every outgoing record.
-/

namespace Recast

abbrev FieldMap := Assoc Template

namespace FieldMap

def insert (fields : FieldMap) (key source : String) : FieldMap :=
  Assoc.insert fields key (Template.ofSource source)

def ofPairs (pairs : List (String × String)) : FieldMap :=
  pairs.foldl (fun fields pair => insert fields pair.1 pair.2) []

theorem nodup_keys_ofPairs (pairs : List (String × String)) :
    (Assoc.keys (ofPairs pairs)).Nodup := by
  have step : ∀ fields : FieldMap, (Assoc.keys fields).Nodup →
      (Assoc.keys (pairs.foldl (fun fields pair => insert fields pair.1 pair.2) fields)).Nodup := by
    induction pairs with
    | nil => exact fun _ distinct => distinct
    | cons pair rest ih =>
      exact fun fields distinct => ih _ (Assoc.nodup_keys_insert distinct pair.1 _)
  exact step [] List.nodup_nil

def get? (fields : FieldMap) (key : String) : Option String :=
  (Assoc.get? fields key).map Template.source

def sources (fields : FieldMap) : List (String × String) :=
  Assoc.mapValues Template.source fields

def toJson (fields : FieldMap) : Json.Value :=
  .object (Assoc.mapValues (fun template => .text template.source) fields)

end FieldMap

abbrev RemoveKeys := List String

namespace RemoveKeys

/-- Reads keys with commas between them; blanks around a key do not count. -/
def parse (list : String) : RemoveKeys :=
  (Text.splitAt ',' list.toList).map fun key => String.ofList (Text.trim key)

def apply (keys : RemoveKeys) (record : Record) : Record :=
  keys.foldl Assoc.erase record

def toJson (keys : RemoveKeys) : Json.Value :=
  .array (keys.map .text)

end RemoveKeys

end Recast
