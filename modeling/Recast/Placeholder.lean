import Recast.Decimal.Layout
import Recast.Event
import Recast.Tag

set_option autoImplicit false

/-!
# The placeholder table

The tokens that stand for values of one event. Record fields replace reserved names, and the
legacy tokens stand for whatever the current names stand for.
-/

namespace Recast.Placeholder

abbrev Table := Assoc Json.Value

def token (name : String) : String :=
  "$\x7b" ++ name ++ "\x7d"

def segmentName (family : String) (index : Int) : String :=
  family ++ "[" ++ String.ofList (Decimal.intText index) ++ "]"

def families : List String := ["tag_parts", "tags"]

def segmentEntries (family : String) (segment : Tag.Indexed) : List (String × Json.Value) :=
  [(token (segmentName family segment.backward), .text segment.part),
    (token (segmentName family segment.forward), .text segment.part)]

def allSegmentEntries (segments : List Tag.Indexed) : List (String × Json.Value) :=
  families.flatMap fun family => segments.flatMap (segmentEntries family)

def legacyTokens : List (String × String) :=
  [("__TAG__", token "tag"), ("__HOSTNAME__", token "hostname"), ("__TIME__", token "time")]

def addLegacy (table : Table) (legacy : String × String) : Table :=
  match Assoc.get? table legacy.2 with
  | some value => Assoc.insert table legacy.1 value
  | none => table

def Table.build (event : Event) (hostname : String) : Table :=
  let reserved : Table :=
    [(token "time", .int event.time), (token "tag", .text event.tag),
      (token "hostname", .text hostname)]
  let segments := allSegmentEntries (Tag.indexed (Tag.parts event.tag))
  let fields := event.record.map fun field => (token field.1, field.2)
  legacyTokens.foldl addLegacy (Assoc.insertAll (Assoc.insertAll reserved segments) fields)

end Recast.Placeholder
