import Recast.Yaml.Token

set_option autoImplicit false

/-!
# Nodes of YAML

The documents of a text as trees. An alias is replaced by the node it names; it must name a node
that is complete. A document is refused if it nests too deeply or if its aliases stand for far more
than what is written.
-/

namespace Recast.Yaml

inductive Node where
  | scalar (tag : Option String) (style : Style) (text : String)
  | sequence (tag : Option String) (items : List Node)
  | mapping (tag : Option String) (entries : List (Node × Node))
deriving Inhabited, Repr

def Node.empty : Node := .scalar none .plain ""

mutual

def Node.depth : Node → Nat
  | .scalar _ _ _ => 0
  | .sequence _ items => depthOfItems items + 1
  | .mapping _ entries => depthOfEntries entries + 1

def depthOfItems : List Node → Nat
  | [] => 0
  | item :: rest => max item.depth (depthOfItems rest)

def depthOfEntries : List (Node × Node) → Nat
  | [] => 0
  | (key, value) :: rest => max (max key.depth value.depth) (depthOfEntries rest)

end

/-- What is left of the tokens, the anchors met so far, and the handles of tags. An anchor has its
node once that is complete, with the number of aliases followed inside. `parts` counts what is
written of the document: a scalar or an alias is one part, a collection two. `jumps` counts the
aliases followed, those inside of what an alias stands for included. -/
structure Remaining where
  tokens : List Token
  anchors : List (List Char × Option (Node × Nat))
  handles : List (List Char × List Char)
  parts : Nat
  jumps : Nat

abbrev Building := StateT Remaining Option

namespace Building

def giveUp {α : Type} : Building α :=
  fun _ => none

def peek : Building (Option Token) :=
  fun state => some (state.tokens.head?, state)

def skip : Building Unit :=
  fun state => some ((), { state with tokens := state.tokens.drop 1 })

def accept (token : Token) : Building Bool := do
  if (← peek) == some token then do
    skip
    pure true
  else pure false

def expect (token : Token) : Building Unit := do
  if ← accept token then pure () else giveUp

def isAtAny (tokens : List Token) : Building Bool := do
  match ← peek with
  | none => pure true
  | some token => pure (tokens.contains token)

def setAnchor (name : List Char) (node : Option (Node × Nat)) : Building Unit :=
  modify fun state => { state with anchors := (name, node) :: state.anchors }

def count (parts jumps : Nat) : Building Unit :=
  modify fun state =>
    { state with parts := state.parts + parts, jumps := state.jumps + jumps }

def scalar (node : Node) : Building Node := do
  count 1 0
  pure node

end Building

open Building

def resolveTag (handle suffix : List Char) : Building String := do
  if handle.isEmpty then pure (String.ofList suffix)
  else
    match (← get).handles.lookup handle with
    | some expansion => pure (String.ofList (expansion ++ suffix))
    | none => giveUp

def readProperties : Building (Option (List Char) × Option String) := do
  match ← peek with
  | some (.anchor name) => do
    skip
    match ← peek with
    | some (.tag handle suffix) => do
      skip
      let tag ← resolveTag handle suffix
      pure (some name, some tag)
    | _ => pure (some name, none)
  | some (.tag handle suffix) => do
    skip
    match ← peek with
    | some (.anchor name) => do
      skip
      let tag ← resolveTag handle suffix
      pure (some name, some tag)
    | _ => do
      let tag ← resolveTag handle suffix
      pure (none, some tag)
  | _ => pure (none, none)

mutual

/-- A node. Block collections are allowed with `block`, and a sequence that is not indented with
`bare`. -/
def readNode : Nat → Bool → Bool → Building Node
  | 0, _, _ => giveUp
  | fuel + 1, block, bare => do
    match ← peek with
    | some (.alias name) => do
      skip
      match (← get).anchors.lookup name with
      | some (some (node, inner)) => do
        count 1 (inner + 1)
        pure node
      | _ => giveUp
    | _ => do
      let (anchor, tag) ← readProperties
      match anchor with
      | none => readContent fuel block bare tag false
      | some name => do
        setAnchor name none
        let earlier := (← get).jumps
        let node ← readContent fuel block bare tag true
        setAnchor name (some (node, (← get).jumps - earlier))
        pure node

def readContent : Nat → Bool → Bool → Option String → Bool → Building Node
  | 0, _, _, _, _ => giveUp
  | fuel + 1, block, bare, tag, anchored => do
    match ← peek with
    | some (.scalar text style) => do
      skip
      let tag := tag.filter (· != "!")
      scalar (.scalar tag style (String.ofList text))
    | some .flowSequenceStart => do
      skip
      count 2 0
      let items ← readFlowItems fuel true
      pure (.sequence tag items)
    | some .flowMappingStart => do
      skip
      count 2 0
      let entries ← readFlowEntries fuel true
      pure (.mapping tag entries)
    | some .blockItem =>
      if bare then do
        count 2 0
        let items ← readBareItems fuel
        pure (.sequence tag items)
      else if tag.isSome || anchored then scalar (.scalar tag .plain "")
      else giveUp
    | some .blockSequenceStart =>
      if block then do
        skip
        count 2 0
        let items ← readBlockItems fuel
        pure (.sequence tag items)
      else if tag.isSome || anchored then scalar (.scalar tag .plain "")
      else giveUp
    | some .blockMappingStart =>
      if block then do
        skip
        count 2 0
        let entries ← readBlockEntries fuel
        pure (.mapping tag entries)
      else if tag.isSome || anchored then scalar (.scalar tag .plain "")
      else giveUp
    | _ => if tag.isSome || anchored then scalar (.scalar tag .plain "") else giveUp

def readOptional : Nat → Bool → Bool → List Token → Building Node
  | 0, _, _, _ => giveUp
  | fuel + 1, block, bare, ends => do
    if ← isAtAny ends then scalar .empty else readNode fuel block bare

def readBlockItems : Nat → Building (List Node)
  | 0 => giveUp
  | fuel + 1 => do
    if ← accept .blockItem then do
      let item ← readOptional fuel true false [.blockItem, .blockEnd]
      let items ← readBlockItems fuel
      pure (item :: items)
    else do
      expect .blockEnd
      pure []

def readBareItems : Nat → Building (List Node)
  | 0 => giveUp
  | fuel + 1 => do
    if ← accept .blockItem then do
      let item ← readOptional fuel true false [.blockItem, .key, .value, .blockEnd]
      let items ← readBareItems fuel
      pure (item :: items)
    else pure []

def readBlockEntries : Nat → Building (List (Node × Node))
  | 0 => giveUp
  | fuel + 1 => do
    if ← accept .blockEnd then pure []
    else do
      expect .key
      let key ← readOptional fuel true true [.key, .value, .blockEnd]
      let value ←
        if ← accept .value then readOptional fuel true true [.key, .value, .blockEnd]
        else scalar .empty
      let entries ← readBlockEntries fuel
      pure ((key, value) :: entries)

/-- Items of a flow sequence; a key makes an item a mapping of one entry. -/
def readFlowItems : Nat → Bool → Building (List Node)
  | 0, _ => giveUp
  | fuel + 1, first => do
    if ← accept .flowSequenceEnd then pure []
    else do
      if !first then expect .flowItem
      if ← accept .flowSequenceEnd then pure []
      else if ← accept .key then do
        count 2 0
        let key ← readOptional fuel false false [.value, .flowItem, .flowSequenceEnd]
        let value ←
          if ← accept .value then readOptional fuel false false [.flowItem, .flowSequenceEnd]
          else scalar .empty
        let items ← readFlowItems fuel false
        pure (.mapping none [(key, value)] :: items)
      else do
        let item ← readNode fuel false false
        let items ← readFlowItems fuel false
        pure (item :: items)

def readFlowEntries : Nat → Bool → Building (List (Node × Node))
  | 0, _ => giveUp
  | fuel + 1, first => do
    if ← accept .flowMappingEnd then pure []
    else do
      if !first then expect .flowItem
      if ← accept .flowMappingEnd then pure []
      else if ← accept .key then do
        let key ← readOptional fuel false false [.value, .flowItem, .flowMappingEnd]
        let value ←
          if ← accept .value then readOptional fuel false false [.flowItem, .flowMappingEnd]
          else scalar .empty
        let entries ← readFlowEntries fuel false
        pure ((key, value) :: entries)
      else do
        let key ← readNode fuel false false
        let value ← scalar .empty
        let entries ← readFlowEntries fuel false
        pure ((key, value) :: entries)

end

def standardHandles : List (List Char × List Char) :=
  [(['!'], ['!']), (['!', '!'], "tag:yaml.org,2002:".toList)]

/-- Reads directives; none may come twice. -/
def readDirectives : Nat → Bool → List (List Char × List Char) →
    Building (Bool × List (List Char × List Char))
  | 0, _, _ => giveUp
  | fuel + 1, versioned, handles => do
    match ← peek with
    | some .versionDirective =>
      if versioned then giveUp
      else do
        skip
        readDirectives fuel true handles
    | some (.tagDirective handle expansion) =>
      if (handles.lookup handle).isSome then giveUp
      else do
        skip
        readDirectives fuel versioned ((handle, expansion) :: handles)
    | _ => pure (versioned || !handles.isEmpty, handles)

def maxNesting : Nat := 128

def maxJumpsPerPart : Nat := 100

def isModest (state : Remaining) (node : Node) : Bool :=
  state.jumps ≤ state.parts * maxJumpsPerPart && node.depth ≤ maxNesting

def skipEnds : Nat → Building Unit
  | 0 => pure ()
  | fuel + 1 => do
    if ← accept .documentEnd then skipEnds fuel else pure ()

/-- The documents that are left. Only the first one may begin without a marker. -/
def readDocuments : Nat → Bool → Building (List Node)
  | 0, _ => giveUp
  | fuel + 1, first => do
    if !first then skipEnds fuel
    if (← peek).isNone then pure []
    else do
      let (directed, handles) ← readDirectives fuel false []
      modify fun state =>
        { state with
          anchors := []
          handles := handles ++ standardHandles
          parts := 0
          jumps := 0 }
      let marked ← accept .documentStart
      if !marked && (directed || !first) then giveUp
      else do
        let isEmpty ←
          match ← peek with
          | none => pure marked
          | some .documentStart => pure true
          | some .documentEnd => pure marked
          | some .versionDirective => pure true
          | some (.tagDirective _ _) => pure true
          | some _ => pure false
        let node ← if isEmpty then pure .empty else readNode fuel true false
        if !isModest (← get) node then giveUp
        let documents ← (do
          if ← accept .documentEnd then readDocuments fuel false
          else readDocuments fuel false)
        pure (node :: documents)

def documents? (input : List Char) : Option (List Node) := do
  let tokens ← tokens? input
  let fuel := 4 * tokens.length + 16
  let (nodes, _) ← readDocuments fuel true ⟨tokens, [], [], 0, 0⟩
  some nodes

end Recast.Yaml
