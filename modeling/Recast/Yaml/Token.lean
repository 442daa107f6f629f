import Recast.Yaml.Scalar

set_option autoImplicit false

/-!
# Tokens of YAML

The structure of a text: where collections begin and end, by indentation or by brackets, what is a
key and what a value. A key without a sign of its own is only known by the colon after it, so its
token is put in place once the colon is met. It must stand on the colon's line and begin at most
1024 characters before it.
-/

namespace Recast.Yaml

inductive Style where
  | plain
  | quoted
  | block
deriving Repr, DecidableEq

/-- A token. A tag is a handle and a suffix. -/
inductive Token where
  | versionDirective
  | tagDirective (handle expansion : List Char)
  | documentStart
  | documentEnd
  | blockSequenceStart
  | blockMappingStart
  | blockEnd
  | flowSequenceStart
  | flowSequenceEnd
  | flowMappingStart
  | flowMappingEnd
  | blockItem
  | flowItem
  | key
  | value
  | alias (name : List Char)
  | anchor (name : List Char)
  | tag (handle suffix : List Char)
  | scalar (text : List Char) (style : Style)
deriving Repr, DecidableEq

/-- A place where a key may have begun. A required one must turn out to be a key. -/
structure Candidate where
  position : Nat
  required : Bool
  index : Nat
  line : Nat
  column : Nat
deriving Repr

/-- What has been found out about the structure. `candidates` has one entry for every open flow
collection and one for the block around them. -/
structure Layout where
  tokens : Array Token
  indent : Int
  outer : List Int
  flowDepth : Nat
  keyAllowed : Bool
  candidates : List (Option Candidate)

abbrev Scanning := StateT Layout Reading

def Scanning.refuse {α : Type} : Scanning α :=
  fun _ => Yaml.refuse

def Scanning.require (condition : Bool) : Scanning Unit :=
  if condition then pure () else Scanning.refuse

def place : Scanning Cursor :=
  fun layout cursor => some ((cursor, layout), cursor)

def push (token : Token) : Scanning Unit :=
  modify fun layout => { layout with tokens := layout.tokens.push token }

def pushAt (position : Nat) (token : Token) : Scanning Unit :=
  modify fun layout =>
    { layout with tokens := layout.tokens.insertIdxIfInBounds position token }

def allowKey (allowed : Bool) : Scanning Unit :=
  modify fun layout => { layout with keyAllowed := allowed }

/-- A candidate has been left behind: its line is over or it is too far away. -/
def Candidate.isStale (candidate : Candidate) (cursor : Cursor) : Bool :=
  candidate.line < cursor.line || candidate.index + 1024 < cursor.index

def dropStale : Scanning Unit := do
  let cursor ← place
  let layout ← get
  let isLost (candidate : Option Candidate) : Bool :=
    candidate.any fun candidate => candidate.isStale cursor && candidate.required
  Scanning.require !(layout.candidates.any isLost)
  set { layout with
    candidates := layout.candidates.map
      (Option.filter fun candidate => !candidate.isStale cursor) }

def dropCandidate : Scanning Unit := do
  let layout ← get
  match layout.candidates with
  | [] => pure ()
  | candidate :: rest => do
    Scanning.require !(candidate.any Candidate.required)
    set { layout with candidates := none :: rest }

def noteCandidate : Scanning Unit := do
  let layout ← get
  if layout.keyAllowed then do
    dropCandidate
    let cursor ← place
    let required := layout.flowDepth == 0 && layout.indent == Int.ofNat cursor.column
    let candidate : Candidate :=
      ⟨layout.tokens.size, required, cursor.index, cursor.line, cursor.column⟩
    modify fun layout => { layout with candidates := some candidate :: layout.candidates.drop 1 }
  else pure ()

def indentTo (column : Nat) (position : Option Nat) (token : Token) : Scanning Unit := do
  let layout ← get
  if layout.flowDepth == 0 && layout.indent < Int.ofNat column then do
    set { layout with indent := Int.ofNat column, outer := layout.indent :: layout.outer }
    match position with
    | some position => pushAt position token
    | none => push token
  else pure ()

def closeTo (column : Int) : List Int → Int → Array Token → Int × List Int × Array Token
  | [], indent, tokens => (indent, [], tokens)
  | outer :: rest, indent, tokens =>
    if column < indent then closeTo column rest outer (tokens.push .blockEnd)
    else (indent, outer :: rest, tokens)

def outdentTo (column : Int) : Scanning Unit :=
  modify fun layout =>
    if layout.flowDepth == 0 then
      let (indent, outer, tokens) := closeTo column layout.outer layout.indent layout.tokens
      { layout with indent := indent, outer := outer, tokens := tokens }
    else layout

def skipGap : Nat → Scanning Unit
  | 0 => pure ()
  | fuel + 1 => do
    let layout ← get
    let cursor ← place
    if cursor.index == 0 && cursor.rest.head? == some '\ufeff' then liftM advance
    let tabs := layout.flowDepth != 0 || !layout.keyAllowed
    let _ ← liftM (takeWhile fun char => char == ' ' || (tabs && char == '\t'))
    if ← liftM (isAt '#') then
      let _ ← liftM (takeWhile fun char => !isBreak char)
    match ← liftM (charAt 0) with
    | none => pure ()
    | some char =>
      if isBreak char then do
        let _ ← liftM takeBreak
        if layout.flowDepth == 0 then allowKey true
        skipGap fuel
      else pure ()

def endBlocks : Scanning Unit := do
  outdentTo (-1)
  dropCandidate
  allowKey false

/-- Reads a version: two numbers and a point between them. -/
def readVersion : Reading Unit := do
  let major ← takeWhile Char.isDigit
  require (major == ['1'])
  require (← isAt '.')
  advance
  let minor ← takeWhile Char.isDigit
  require (minor == ['1'] || minor == ['2'])

/-- Reads a tag handle: a word between exclamation marks, or one mark alone. -/
def readHandle (directive : Bool) : Reading (List Char) := do
  require (← isAt '!')
  advance
  let word ← takeWhile isWordChar
  if ← isAt '!' then do
    advance
    pure ('!' :: word ++ ['!'])
  else do
    require (!directive || word.isEmpty)
    pure ('!' :: word)

/-- Characters of a tag. Some of them only stand between angle brackets. -/
def isTagChar (bracketed : Bool) (char : Char) : Bool :=
  isWordChar char || ";/?:@&=+$.!~*'()".toList.contains char ||
    (bracketed && [',', '[', ']'].contains char)

/-- Reads the characters of a tag; a percent sign gives a byte by two digits. -/
def readTagChars (bracketed : Bool) : Nat → List Char → Reading (List Char)
  | 0, text => pure text.reverse
  | fuel + 1, text => do
    match ← charAt 0 with
    | some '%' => do
      advance
      let char ← readCode 2
      require (char.toNat < 0x80)
      readTagChars bracketed fuel (char :: text)
    | some char =>
      if isTagChar bracketed char then do
        advance
        readTagChars bracketed fuel (char :: text)
      else pure text.reverse
    | none => pure text.reverse

/-- Reads a tag: its handle and its suffix. -/
def readTag (inFlow : Bool) : Reading (List Char × List Char) := do
  let found ←
    if (← charAt 1) == some '<' then do
      advanceBy 2
      let suffix ← readTagChars true (← remaining) []
      require !suffix.isEmpty
      require (← isAt '>')
      advance
      pure ([], suffix)
    else do
      let handle ← readHandle false
      let suffix ← readTagChars false (← remaining) []
      if handle.length ≥ 2 && handle.getLast? == some '!' then do
        require !suffix.isEmpty
        pure (handle, suffix)
      else
        let suffix := handle.drop 1 ++ suffix
        pure (if suffix.isEmpty then ([], ['!']) else (['!'], suffix))
  let next ← charAt 0
  require (isGap next || (inFlow && next == some ','))
  pure found

def readDirective : Reading Token := do
  advance
  let name ← takeWhile isWordChar
  require (isGap (← charAt 0))
  let _ ← takeWhile isSpaceOrTab
  let token ←
    if name == "YAML".toList then do
      readVersion
      pure Token.versionDirective
    else if name == "TAG".toList then do
      let handle ← readHandle true
      let gap ← takeWhile isSpaceOrTab
      require !gap.isEmpty
      let expansion ← readTagChars true (← remaining) []
      require (isGap (← charAt 0))
      pure (Token.tagDirective handle expansion)
    else refuse
  let _ ← takeWhile isSpaceOrTab
  if ← isAt '#' then
    let _ ← takeWhile (fun char => !isBreak char)
  require (isLineEnd (← charAt 0))
  let _ ← takeBreak
  pure token

def readAnchorName : Reading (List Char) := do
  advance
  let name ← takeWhile isWordChar
  require !name.isEmpty
  let next ← charAt 0
  require (isGap next || next.any fun char => "?:,]\x7d%@\x60".toList.contains char)
  pure name

def openFlow (token : Token) : Scanning Unit := do
  noteCandidate
  modify fun layout =>
    { layout with
      candidates := none :: layout.candidates
      flowDepth := layout.flowDepth + 1
      keyAllowed := true }
  liftM advance
  push token

def closeFlow (token : Token) : Scanning Unit := do
  dropCandidate
  modify fun layout =>
    { layout with
      candidates := if layout.flowDepth == 0 then layout.candidates else layout.candidates.drop 1
      flowDepth := layout.flowDepth - 1
      keyAllowed := false }
  liftM advance
  push token

def scanItem : Scanning Unit := do
  let layout ← get
  if layout.flowDepth == 0 then do
    Scanning.require layout.keyAllowed
    indentTo (← place).column none .blockSequenceStart
  dropCandidate
  allowKey true
  liftM advance
  push .blockItem

def scanKey : Scanning Unit := do
  let layout ← get
  if layout.flowDepth == 0 then do
    Scanning.require layout.keyAllowed
    indentTo (← place).column none .blockMappingStart
  dropCandidate
  allowKey (layout.flowDepth == 0)
  liftM advance
  push .key

/-- A colon before a value. The candidate, if there is one, was its key. -/
def scanValue : Scanning Unit := do
  let layout ← get
  match layout.candidates with
  | some candidate :: rest => do
    set { layout with candidates := none :: rest }
    pushAt candidate.position .key
    indentTo candidate.column (some candidate.position) .blockMappingStart
    allowKey false
  | _ => do
    if layout.flowDepth == 0 then do
      Scanning.require layout.keyAllowed
      indentTo (← place).column none .blockMappingStart
    allowKey (layout.flowDepth == 0)
  liftM advance
  push .value

def scanNode (read : Reading Token) : Scanning Unit := do
  noteCandidate
  allowKey false
  let token ← liftM read
  push token

/-- A plain scalar; after one that ends with a line break a key may begin. -/
def scanPlain : Scanning Unit := do
  noteCandidate
  allowKey false
  let layout ← get
  let (text, broken) ← liftM (readPlain (layout.flowDepth != 0) (layout.indent + 1).toNat)
  push (.scalar text .plain)
  if broken then allowKey true

def scanBlock (literal : Bool) : Scanning Unit := do
  dropCandidate
  allowKey true
  let layout ← get
  let text ← liftM (readBlock literal layout.indent)
  push (.scalar text .block)

def isIndicator (char : Char) : Bool :=
  "-?:,[]\x7b\x7d#&*!|>'\"%@\x60".toList.contains char

/-- Scans one token. The answer tells whether the text has ended. -/
def scanToken : Scanning Bool := do
  skipGap ((← place).rest.length + 1)
  dropStale
  let cursor ← place
  outdentTo (Int.ofNat cursor.column)
  let inFlow := (← get).flowDepth != 0
  let gapNext := isGap (cursor.rest.drop 1).head?
  match cursor.rest with
  | [] => do
    outdentTo (-1)
    dropCandidate
    pure true
  | char :: rest => do
    let marker ← liftM atMarker
    if cursor.column == 0 && char == '%' then do
      endBlocks
      let token ← liftM readDirective
      push token
    else if marker then do
      endBlocks
      liftM (advanceBy 3)
      push (if char == '-' then .documentStart else .documentEnd)
    else if char == '[' then openFlow .flowSequenceStart
    else if char == '\x7b' then openFlow .flowMappingStart
    else if char == ']' then closeFlow .flowSequenceEnd
    else if char == '\x7d' then closeFlow .flowMappingEnd
    else if char == ',' then do
      dropCandidate
      allowKey true
      liftM advance
      push .flowItem
    else if char == '-' && gapNext then scanItem
    else if char == '?' && (inFlow || gapNext) then scanKey
    else if char == ':' && (inFlow || gapNext) then scanValue
    else if char == '*' then scanNode do
      let name ← readAnchorName
      pure (.alias name)
    else if char == '&' then scanNode do
      let name ← readAnchorName
      pure (.anchor name)
    else if char == '!' then scanNode do
      let (handle, suffix) ← readTag inFlow
      pure (.tag handle suffix)
    else if char == '|' && !inFlow then scanBlock true
    else if char == '>' && !inFlow then scanBlock false
    else if char == '\'' || char == '"' then scanNode do
      let text ← readQuoted char
      pure (.scalar text .quoted)
    else if !(isIndicator char || isSpaceOrTab char) ||
        (char == '-' && !(rest.head?.any isSpaceOrTab)) ||
        (!inFlow && (char == '?' || char == ':') && !gapNext) then scanPlain
    else Scanning.refuse
    pure false

def scanFrom : Nat → Scanning Unit
  | 0 => Scanning.refuse
  | fuel + 1 => do
    if ← scanToken then pure () else scanFrom fuel

def tokens? (input : List Char) : Option (List Token) :=
  if input.all isAllowed then
    let start : Layout := ⟨#[], -1, [], 0, true, [none]⟩
    let scan := (scanFrom (input.length + 2)).run start
    (scan.run ⟨input, 0, 0, 0⟩).map fun found => found.1.2.tokens.toList
  else none

end Recast.Yaml
