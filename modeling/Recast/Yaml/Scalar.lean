import Recast.Json.Reader
import Recast.Yaml.Cursor

set_option autoImplicit false

/-!
# Scalars of YAML

Plain, quoted and block scalars. A single line break inside a plain or quoted scalar becomes a
space, and further ones are kept.
-/

namespace Recast.Yaml

/-- Line breaks and blanks between two parts of a scalar: blanks on the first line, the first line
break, and the line breaks after it. -/
structure Fold where
  blanks : List Char
  first : Option (List Char)
  further : List Char

def Fold.empty : Fold := ⟨[], none, []⟩

def Fold.text (fold : Fold) : List Char :=
  match fold.first with
  | none => fold.blanks
  | some ['\n'] => if fold.further.isEmpty then [' '] else fold.further
  | some first => first ++ fold.further

/-- Reads blanks and breaks. Tabs left of `indent` are refused after a break. -/
def readFold (indent : Nat) : Nat → Fold → Reading Fold
  | 0, fold => pure fold
  | fuel + 1, fold => do
    match ← charAt 0 with
    | none => pure fold
    | some char =>
      if isSpaceOrTab char then do
        let column ← columnNow
        require !(fold.first.isSome && column < indent && char == '\t')
        advance
        match fold.first with
        | none => readFold indent fuel { fold with blanks := fold.blanks ++ [char] }
        | some _ => readFold indent fuel fold
      else if isBreak char then do
        let text ← takeBreak
        match fold.first with
        | none => readFold indent fuel ⟨[], some text, fold.further⟩
        | some _ => readFold indent fuel { fold with further := fold.further ++ text }
      else pure fold

def isFlowIndicator (char : Char) : Bool :=
  char == ',' || char == '[' || char == ']' || char == '\x7b' || char == '\x7d'

def readPlainRun (inFlow : Bool) : Nat → List Char → Reading (List Char)
  | 0, run => pure run.reverse
  | fuel + 1, run => do
    match ← charAt 0 with
    | none => pure run.reverse
    | some char =>
      if isGap (some char) then pure run.reverse
      else do
        let next ← charAt 1
        require !(inFlow && char == ':' && next.any fun next => isFlowIndicator next || next == '?')
        if (char == ':' && isGap next) || (inFlow && isFlowIndicator char) then pure run.reverse
        else do
          advance
          readPlainRun inFlow fuel (char :: run)

/-- Reads a plain scalar after `text`, with `fold` before its next run. The flag tells whether a
line break stands after the scalar. -/
def readPlainFrom (inFlow : Bool) (indent : Nat) :
    Nat → List Char → Fold → Reading (List Char × Bool)
  | 0, text, fold => pure (text, fold.first.isSome)
  | fuel + 1, text, fold => do
    if (← atMarker) || (← isAt '#') then pure (text, fold.first.isSome)
    else do
      let run ← readPlainRun inFlow (← remaining) []
      let stop :=
        match ← charAt 0 with
        | none => true
        | some char => !(isGap (some char))
      let text := if run.isEmpty then text else text ++ fold.text ++ run
      let fold := if run.isEmpty then fold else Fold.empty
      if stop then pure (text, fold.first.isSome)
      else do
        let fold ← readFold indent (← remaining) fold
        let column ← columnNow
        if !inFlow && column < indent then pure (text, fold.first.isSome)
        else readPlainFrom inFlow indent fuel text fold

def readPlain (inFlow : Bool) (indent : Nat) : Reading (List Char × Bool) := do
  readPlainFrom inFlow indent ((← remaining) + 1) [] Fold.empty

def escapeName? (char : Char) : Option Char :=
  match char with
  | '0' => some '\x00'
  | 'a' => some '\x07'
  | 'b' => some '\x08'
  | 't' => some '\t'
  | '\t' => some '\t'
  | 'n' => some '\n'
  | 'v' => some '\x0b'
  | 'f' => some '\x0c'
  | 'r' => some '\r'
  | 'e' => some '\x1b'
  | ' ' => some ' '
  | '"' => some '"'
  | '/' => some '/'
  | '\\' => some '\\'
  | 'N' => some '\u0085'
  | '_' => some '\u00a0'
  | 'L' => some '\u2028'
  | 'P' => some '\u2029'
  | _ => none

def escapeLength? (char : Char) : Option Nat :=
  match char with
  | 'x' => some 2
  | 'u' => some 4
  | 'U' => some 8
  | _ => none

def readCode (length : Nat) : Reading Char := do
  let cursor ← get
  let digits := cursor.rest.take length
  match digits.mapM Json.hexValue? with
  | none => refuse
  | some values => do
    let code := values.foldl (fun total value => total * 16 + value) 0
    require (values.length == length && !(0xD800 ≤ code && code ≤ 0xDFFF) && code ≤ 0x10FFFF)
    advanceBy length
    pure (Char.ofNat code)

/-- Reads a run of a quoted scalar without blanks. The flag tells that a backslash has joined the
next line. -/
def readQuotedRun (quote : Char) : Nat → List Char → Reading (List Char × Bool)
  | 0, run => pure (run.reverse, false)
  | fuel + 1, run => do
    match ← charAt 0 with
    | none => pure (run.reverse, false)
    | some char =>
      let next ← charAt 1
      if isGap (some char) then pure (run.reverse, false)
      else if char == '\'' && quote == '\'' && next == some '\'' then do
        advanceBy 2
        readQuotedRun quote fuel ('\'' :: run)
      else if char == quote then pure (run.reverse, false)
      else if char == '\\' && quote == '"' then
        match next with
        | none => refuse
        | some next =>
          if isBreak next then do
            advance
            let _ ← takeBreak
            pure (run.reverse, true)
          else do
            advanceBy 2
            match escapeLength? next with
            | some length => do
              let char ← readCode length
              readQuotedRun quote fuel (char :: run)
            | none =>
              match escapeName? next with
              | some char => readQuotedRun quote fuel (char :: run)
              | none => refuse
      else do
        advance
        readQuotedRun quote fuel (char :: run)

def readQuotedFrom (quote : Char) : Nat → List Char → Reading (List Char)
  | 0, _ => refuse
  | fuel + 1, text => do
    require !(← atMarker)
    let (run, joined) ← readQuotedRun quote (← remaining) []
    let text := text ++ run
    match ← charAt 0 with
    | none => refuse
    | some char =>
      if char == quote then do
        advance
        pure text
      else do
        let start : Fold := if joined then ⟨[], some [], []⟩ else Fold.empty
        let fold ← readFold 0 (← remaining) start
        readQuotedFrom quote fuel (text ++ fold.text)

def readQuoted (quote : Char) : Reading (List Char) := do
  advance
  readQuotedFrom quote ((← remaining) + 1) []

inductive Chomping where
  | strip
  | clip
  | keep
deriving Repr, DecidableEq

def chomping? (char : Option Char) : Option Chomping :=
  match char with
  | some '+' => some .keep
  | some '-' => some .strip
  | _ => none

def readHeader : Reading (Chomping × Nat) := do
  let first ← charAt 0
  match chomping? first with
  | some chomping => do
    advance
    match ← charAt 0 with
    | some digit =>
      if digit.isDigit then do
        require (digit != '0')
        advance
        pure (chomping, digit.toNat - '0'.toNat)
      else pure (chomping, 0)
    | none => pure (chomping, 0)
  | none =>
    match first with
    | some digit =>
      if digit.isDigit then do
        require (digit != '0')
        advance
        let increment := digit.toNat - '0'.toNat
        match chomping? (← charAt 0) with
        | some chomping => do
          advance
          pure (chomping, increment)
        | none => pure (.clip, increment)
      else pure (.clip, 0)
    | none => pure (.clip, 0)

/-- Reads indentation and empty lines. With no indentation known yet, the widest one is found. -/
def readIndentation (indent : Nat) : Nat → Nat → List Char → Reading (Nat × List Char)
  | 0, widest, breaks => pure (widest, breaks)
  | fuel + 1, widest, breaks => do
    let start ← columnNow
    let cursor ← get
    let spaces := (cursor.rest.takeWhile (· == ' ')).length
    let count := if indent = 0 then spaces else min spaces (indent - start)
    advanceBy count
    let column ← columnNow
    let widest := max widest column
    let next ← charAt 0
    require !((indent = 0 || column < indent) && next == some '\t')
    match next with
    | none => pure (widest, breaks)
    | some char =>
      if isBreak char then do
        let text ← takeBreak
        readIndentation indent fuel widest (breaks ++ text)
      else pure (widest, breaks)

/-- Reads the lines of a block scalar. `first` is the line break after the last line, `further`
the ones after it, and `wasBlank` tells that the last line began with a blank. -/
def readBlockLines (literal : Bool) (indent : Nat) :
    Nat → List Char → List Char → List Char → Bool →
      Reading (List Char × List Char × List Char)
  | 0, text, first, further, _ => pure (text, first, further)
  | fuel + 1, text, first, further, wasBlank => do
    let column ← columnNow
    match ← charAt 0 with
    | none => pure (text, first, further)
    | some char =>
      if column != indent then pure (text, first, further)
      else do
        let isBlank := isSpaceOrTab char
        let folds := !literal && first == ['\n'] && !wasBlank && !isBlank
        let joint :=
          if folds then (if further.isEmpty then [' '] else []) else first
        let line ← takeWhile (fun char => !isBreak char)
        let text := text ++ joint ++ further ++ line
        let first ← takeBreak
        let (_, further) ← readIndentation indent (← remaining) 0 []
        readBlockLines literal indent fuel text first further isBlank

def readBlock (literal : Bool) (parent : Int) : Reading (List Char) := do
  advance
  let (chomping, increment) ← readHeader
  let _ ← takeWhile isSpaceOrTab
  if ← isAt '#' then
    let _ ← takeWhile (fun char => !isBreak char)
  require (isLineEnd (← charAt 0))
  let _ ← takeBreak
  let known := if increment = 0 then 0 else (max parent 0).toNat + increment
  let (widest, further) ← readIndentation known ((← remaining) + 1) 0 []
  let indent :=
    if known = 0 then max (max widest (parent + 1).toNat) 1 else known
  let (text, first, further) ←
    readBlockLines literal indent ((← remaining) + 1) [] [] further false
  match chomping with
  | .strip => pure text
  | .clip => pure (text ++ first)
  | .keep => pure (text ++ first ++ further)

end Recast.Yaml
