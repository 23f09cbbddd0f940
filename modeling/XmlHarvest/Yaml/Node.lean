import XmlHarvest.Ordered
import XmlHarvest.Yaml.Lexer
import XmlHarvest.Yaml.Scalar

/-! # YAML nodes

A text is at most one document, and a document is one node: a scalar, a
sequence or a mapping.  Anchors name nodes, and aliases stand for them. -/
set_option autoImplicit false

namespace XmlHarvest.Yaml

inductive Node where
  | scalar (tag : Tag) (text : Text)
  | sequence (tag : Tag) (items : List Node)
  | mapping (tag : Tag) (entries : List (Node × Node))

/-- The tokens to come, the anchors that were seen, the nodes of those that are
complete, and the tag handles. -/
structure Composer where
  tokens : List Token
  seen : List (Text) := []
  anchors : List (Text × Node) := []
  handles : List (Text × Text) := []

abbrev ComposeM : Type → Type := StateT Composer (Except ReadFault)

def noNode {α : Type} : ComposeM α := throw .malformed

def nextToken : ComposeM Token := do return (← get).tokens.headD .streamEnd

def skipToken : ComposeM Unit := modify fun c => { c with tokens := c.tokens.drop 1 }

def acceptToken (t : Token) : ComposeM Bool := do
  if (← nextToken) == t then
    skipToken
    return true
  else return false

def emptyNode : Node := .scalar .null []

def properties : ComposeM (Option (Text) × Option TagText) := do
  match ← nextToken with
  | .anchor a =>
    skipToken
    match ← nextToken with
    | .tag t => skipToken; return (some a, some t)
    | _ => return (some a, none)
  | .tag t =>
    skipToken
    match ← nextToken with
    | .anchor a => skipToken; return (some a, some t)
    | _ => return (none, some t)
  | _ => return (none, none)

/-- The full name of a tag; a lone exclamation mark names none. -/
def fullTag (t : Option TagText) : ComposeM (Option (Text)) := do
  match t with
  | none => return none
  | some ⟨none, suffix⟩ => return some suffix
  | some ⟨some handle, suffix⟩ =>
    match (← get).handles.lookup handle with
    | some start => return some (start ++ suffix)
    | none => noNode

def tagOr (standard : Tag) : Option (Text) → Tag
  | none | some ['!'] => standard
  | some name => Tag.ofText name

/-- The tag of a scalar: a plain one without tag has the tag of its form. -/
def scalarTag (tag : Option (Text)) (text : Text) (plain : Bool) : Tag :=
  match tag with
  | some ['!'] => implicitTag text
  | none => if plain then implicitTag text else .str
  | some name => Tag.ofText name

def noteAnchor : Option (Text) → ComposeM Unit
  | none => return
  | some a => do
    if (← get).seen.contains a then noNode
    modify fun c => { c with seen := a :: c.seen }

def nameNode (anchor : Option (Text)) (n : Node) : ComposeM Node := do
  match anchor with
  | none => return n
  | some a =>
    modify fun c => { c with anchors := (a, n) :: c.anchors }
    return n

def nodeUnless (ends : List Token) (node : ComposeM Node) : ComposeM Node := do
  if ends.contains (← nextToken) then return emptyNode
  node

mutual

/-- A node.  Block collections count in block context, and a sequence without
indentation only where it is the value of a mapping.  The fuel bounds the
number of tokens. -/
def node : Nat → Bool → Bool → ComposeM Node
  | 0, _, _ => noNode
  | fuel + 1, block, indentless => do
    match ← nextToken with
    | .alias name =>
      skipToken
      match (← get).anchors.lookup name with
      | some n => return n
      | none =>
        -- the alias of a node that it lies in
        if (← get).seen.contains name then throw (.fault .foreign)
        noNode
    | _ =>
      let (anchor, tag) ← properties
      let full ← fullTag tag
      match ← nextToken, block, indentless with
      | .blockEntry, _, true =>
        noteAnchor anchor
        nameNode anchor (.sequence (tagOr .seq full) (← indentlessItems fuel))
      | .scalar text plain, _, _ =>
        skipToken
        noteAnchor anchor
        nameNode anchor (.scalar (scalarTag full text plain) text)
      | .flowSequenceStart, _, _ =>
        skipToken
        noteAnchor anchor
        nameNode anchor (.sequence (tagOr .seq full) (← flowItems fuel true))
      | .flowMappingStart, _, _ =>
        skipToken
        noteAnchor anchor
        nameNode anchor (.mapping (tagOr .map full) (← flowEntries fuel true))
      | .blockSequenceStart, true, _ =>
        skipToken
        noteAnchor anchor
        nameNode anchor (.sequence (tagOr .seq full) (← blockItems fuel))
      | .blockMappingStart, true, _ =>
        skipToken
        noteAnchor anchor
        nameNode anchor (.mapping (tagOr .map full) (← blockEntries fuel))
      | _, _, _ =>
        if anchor.isNone && full.isNone then noNode
        noteAnchor anchor
        nameNode anchor (.scalar (tagOr .null full) [])

def blockItems : Nat → ComposeM (List Node)
  | 0 => noNode
  | fuel + 1 => do
    if ← acceptToken .blockEntry then
      let n ← nodeUnless [.blockEntry, .blockEnd] (node fuel true false)
      return n :: (← blockItems fuel)
    else if ← acceptToken .blockEnd then return []
    else noNode

def indentlessItems : Nat → ComposeM (List Node)
  | 0 => noNode
  | fuel + 1 => do
    if ← acceptToken .blockEntry then
      let n ← nodeUnless [.blockEntry, .key, .value, .blockEnd] (node fuel true false)
      return n :: (← indentlessItems fuel)
    else return []

def blockEntries : Nat → ComposeM (List (Node × Node))
  | 0 => noNode
  | fuel + 1 => do
    if ← acceptToken .key then
      let key ← nodeUnless [.key, .value, .blockEnd] (node fuel true true)
      let value ← if ← acceptToken .value then
          nodeUnless [.key, .value, .blockEnd] (node fuel true true)
        else pure emptyNode
      return (key, value) :: (← blockEntries fuel)
    else if ← acceptToken .blockEnd then return []
    else noNode

/-- The items of a flow sequence; an item with a key mark is a mapping of one
entry. -/
def flowItems : Nat → Bool → ComposeM (List Node)
  | 0, _ => noNode
  | fuel + 1, first => do
    if ← acceptToken .flowSequenceEnd then return []
    if !first then
      if !(← acceptToken .flowEntry) then noNode
    if ← acceptToken .key then
      let key ← nodeUnless [.value, .flowEntry, .flowSequenceEnd] (node fuel false false)
      let value ← if ← acceptToken .value then
          nodeUnless [.flowEntry, .flowSequenceEnd] (node fuel false false)
        else pure emptyNode
      return .mapping .map [(key, value)] :: (← flowItems fuel false)
    else if ← acceptToken .flowSequenceEnd then return []
    else
      let n ← node fuel false false
      return n :: (← flowItems fuel false)

/-- The entries of a flow mapping; an entry without key mark has no value. -/
def flowEntries : Nat → Bool → ComposeM (List (Node × Node))
  | 0, _ => noNode
  | fuel + 1, first => do
    if ← acceptToken .flowMappingEnd then return []
    if !first then
      if !(← acceptToken .flowEntry) then noNode
    if ← acceptToken .key then
      let key ← nodeUnless [.value, .flowEntry, .flowMappingEnd] (node fuel false false)
      let value ← if ← acceptToken .value then
          nodeUnless [.flowEntry, .flowMappingEnd] (node fuel false false)
        else pure emptyNode
      return (key, value) :: (← flowEntries fuel false)
    else if ← acceptToken .flowMappingEnd then return []
    else
      let key ← node fuel false false
      return (key, emptyNode) :: (← flowEntries fuel false)

end

def standardHandles : List (Text × Text) :=
  [("!", "!"), ("!!", "tag:yaml.org,2002:")]

/-- Reads the directives of a document.  The version is given once and starts
with one; a handle is declared once. -/
def directives : Nat → Bool → ComposeM Unit
  | 0, _ => noNode
  | fuel + 1, versioned => do
    match ← nextToken with
    | .directive d =>
      skipToken
      match d with
      | .version major =>
        if versioned || major.dropWhile (· == CodePoint.char '0') != "1" then noNode
        directives fuel true
      | .tag handle uri =>
        if ((← get).handles.lookup handle).isSome then noNode
        modify fun c => { c with handles := (handle, uri) :: c.handles }
        directives fuel versioned
      | .other => directives fuel versioned
    | _ => modify fun c => { c with handles := c.handles ++ standardHandles }

def skipDocumentEnds : Nat → ComposeM Unit
  | 0 => return
  | fuel + 1 => do
    if ← acceptToken .documentEnd then skipDocumentEnds fuel

/-- Reads the only document of a stream, if there is one. -/
def document (fuel : Nat) : ComposeM (Option Node) := do
  let explicit ← match ← nextToken with
    | .directive _ | .documentStart => pure true
    | .streamEnd => return none
    | _ => pure false
  if explicit then
    directives fuel false
    if !(← acceptToken .documentStart) then noNode
  else modify fun c => { c with handles := standardHandles }
  let n ←
    match explicit, ← nextToken with
    | true, .directive _ | true, .documentStart | true, .documentEnd | true, .streamEnd =>
      pure emptyNode
    | _, _ => node fuel true false
  skipDocumentEnds fuel
  if (← nextToken) == .streamEnd then return some n else noNode

def Node.ofTokens? (tokens : List Token) : Except ReadFault (Option Node) := do
  let (n, _) ← (document (2 * tokens.length + 8)).run { tokens := tokens }
  return n

end XmlHarvest.Yaml
