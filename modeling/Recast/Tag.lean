import Recast.Text.Search

set_option autoImplicit false

/-!
# Tags

A tag is a routing label whose segments are separated by dots. Segments are counted from the left
from zero, and from the right from minus one.
-/

namespace Recast.Tag

/-- The segments of a tag. An empty tag has one empty segment. -/
def parts (tag : String) : List String :=
  (Text.splitAt '.' tag.toList).map String.ofList

def part? (parts : List String) (index : Int) : Option String :=
  let resolved := if index < 0 then Int.ofNat parts.length + index else index
  if 0 ≤ resolved && resolved < Int.ofNat parts.length then parts[resolved.toNat]? else none

structure Indexed where
  forward : Int
  backward : Int
  part : String
deriving Repr, DecidableEq

def indexedFrom (size : Nat) (start : Nat) : List String → List Indexed
  | [] => []
  | part :: rest =>
    ⟨Int.ofNat start, Int.ofNat start - Int.ofNat size, part⟩ :: indexedFrom size (start + 1) rest

def indexed (parts : List String) : List Indexed :=
  indexedFrom parts.length 0 parts

end Recast.Tag
