import Recast.Text.Search

set_option autoImplicit false

/-!
# File paths

The last component of a path and its parent. Empty components and single points between slashes
do not count; a point that begins a relative path does.
-/

namespace Recast.Path

/-- The length of the front that is no component name: the root slash, or a leading point. -/
def leadLength (path : List Char) : Nat :=
  match path with
  | '/' :: _ => 1
  | ['.'] => 1
  | '.' :: '/' :: _ => 1
  | _ => 0

def isIdle (component : List Char) : Bool :=
  component == [] || component == ['.']

def dropIdle (components : List (List Char)) : List (List Char) :=
  (components.reverse.dropWhile isIdle).reverse

def components (path : List Char) : List (List Char) :=
  dropIdle (Text.splitAt '/' (path.drop (leadLength path)))

def basename (path : List Char) : List Char :=
  match (components path).getLast? with
  | some component => if component = ['.', '.'] then path else component
  | none => path

/-- The path without its last component: a point for a bare name, a slash for the root. -/
def dirname (path : List Char) : List Char :=
  match components path with
  | [] => if path.head? = some '/' then ['/'] else ['.']
  | component :: rest =>
    let parents := dropIdle (component :: rest).dropLast
    let parent := path.take (leadLength path) ++ List.intercalate ['/'] parents
    if parent.isEmpty then ['.'] else parent

end Recast.Path
