import Recast.Text.Blank

set_option autoImplicit false

/-!
# Holes in templates

An expression in a template stands in a hole: a dollar sign and braces. The braces of a hole are
matched outside of quotes. A template becomes a text between back-ticks, and one that is a single
hole may become its bare expression.
-/

namespace Recast.Template

/-- Where a scan for a closing brace stands: outside quotes, inside a quote, or after a
backslash. -/
inductive Scan where
  | outside
  | quoted (quote : Char)
  | escaped (quote : Char)
deriving Repr, DecidableEq

def isQuote (char : Char) : Bool :=
  char == '"' || char == '\'' || char == '\x60'

def Scan.within (quote char : Char) : Scan :=
  if char = '\\' && quote != '\x60' then .escaped quote
  else if char = quote then .outside
  else .quoted quote

/-- The text before the brace that closes a hole and the text after it. `depth` counts the braces
that have been opened inside. -/
def closeFrom? (depth : Nat) (scan : Scan) : List Char → Option (List Char × List Char)
  | [] => none
  | char :: rest =>
    let next (depth : Nat) (scan : Scan) :=
      (closeFrom? depth scan rest).map fun found => (char :: found.1, found.2)
    match scan with
    | .escaped quote => next depth (.quoted quote)
    | .quoted quote => next depth (Scan.within quote char)
    | .outside =>
      if isQuote char then next depth (.quoted char)
      else if char = '\x7b' then next (depth + 1) .outside
      else if char = '\x7d' then
        match depth with
        | 0 => some ([], rest)
        | depth + 1 => next depth .outside
      else next depth .outside

def closeHole? (body : List Char) : Option (List Char × List Char) :=
  closeFrom? 0 .outside body

def singleHole? (source : List Char) : Option (List Char) :=
  match source with
  | '$' :: '\x7b' :: body =>
    match closeHole? body with
    | some (inner, []) => if Text.isAllBlank inner then none else some inner
    | _ => none
  | _ => none

def doubleTicks (text : List Char) : List Char :=
  text.flatMap fun char => if char = '\x60' then ['\x60', '\x60'] else [char]

/-- The script of a template. With `typecast` a single hole keeps the kind of its value. -/
def rewrite (typecast : Bool) (source : List Char) : List Char :=
  match if typecast then singleHole? source else none with
  | some inner => inner
  | none => '\x60' :: doubleTicks source ++ ['\x60']

end Recast.Template
