import Recast.Decimal.Reader
import Recast.Json.Reader
import Recast.Script.Value

set_option autoImplicit false

/-!
# Tokens of expressions

Numbers, texts, names and symbols. A text between back-ticks is cut at its holes; the tokens of a
hole stand between two of its parts.
-/

namespace Recast.Script

/-- A token. A text part with `more` is followed by the braces of a hole. -/
inductive Token where
  | int (number : Int)
  | float (number : Float)
  | char (letter : Char)
  | text (content : String)
  | part (content : String) (more : Bool)
  | name (name : String)
  | keyword (word : String)
  | reserved (word : String)
  | symbol (sign : String)
deriving Inhabited, Repr

def keywords : List String :=
  ["true", "false", "let", "const", "if", "else", "switch", "do", "while", "until", "loop", "for",
    "in", "continue", "break", "return", "throw", "try", "catch", "import", "export", "as", "fn",
    "private"]

def reservedWords : List String :=
  ["public", "protected", "super", "new", "use", "module", "package", "var", "static", "shared",
    "with", "is", "goto", "match", "case", "default", "void", "null", "nil", "spawn", "thread",
    "go", "sync", "async", "await", "yield", "this", "Fn", "print", "debug", "type_of", "eval",
    "call", "curry", "is_shared", "is_def_var", "is_def_fn"]

def callableWords : List String :=
  ["Fn", "print", "debug", "type_of", "eval", "call", "curry", "is_shared", "is_def_var",
    "is_def_fn"]

def methodWords : List String :=
  ["type_of", "call", "curry", "is_shared"]

def symbols : List String :=
  ["**=", "<<=", ">>=", "..=", "=>", "==", "!=", "<=", ">=", "<<", ">>", "**", "&&", "||", "??",
    "?.", "?[", "..", "+=", "-=", "*=", "/=", "%=", "&=", "|=", "^=", "#\x7b", "(", ")", "[", "]",
    "\x7b", "\x7d", "+", "-", "*", "/", "%", "=", "<", ">", "!", "&", "|", "^", ".", ",", ":", ";"]

def deadSymbols : List String :=
  ["===", "!==", "...", "->", "<-", "++", "--", "<|", "|>", "::", ":=", "(*", "*)"]

def isNameStart (char : Char) : Bool :=
  char.isAlpha || char == '_'

def isNamePart (char : Char) : Bool :=
  char.isAlphanum || char == '_'

def isName (word : List Char) : Bool :=
  match word.dropWhile (· == '_') with
  | char :: _ => char.isAlpha
  | [] => false

def wordToken? (word : List Char) : Option Token :=
  let text := String.ofList word
  if text = "_" then some (.symbol text)
  else if keywords.contains text then some (.keyword text)
  else if reservedWords.contains text then some (.reserved text)
  else if isName word then some (.name text)
  else none

def Token.endsOperand : Token → Bool
  | .int _ => true
  | .float _ => true
  | .char _ => true
  | .text _ => true
  | .part _ more => !more
  | .name _ => true
  | .keyword word => word == "true" || word == "false"
  | .reserved _ => true
  | .symbol sign => sign == "_" || sign == ")" || sign == "]" || sign == "\x7d"

end Recast.Script
