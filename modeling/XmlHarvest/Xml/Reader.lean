import XmlHarvest.Text.Utf8
import XmlHarvest.Xml.Doctype
import XmlHarvest.Xml.Encoding
import XmlHarvest.Xml.StartTag

/-! # Reading documents

A document is a declaration, a document type, one element, and comments and
instructions around them.  A strict reading accepts a document without
violations of the rules; a lenient one gives the elements that could be made
out. -/
set_option autoImplicit false

namespace XmlHarvest.Xml

def depthLimit : Nat := 256

/-- Reads text up to the next mark.  Characters that have no place in a
document are left out. -/
def characters : ScanM Unit := do
  let cs ← input
  let isPlain (c : Char) : Bool := c != '<' && c != '&'
  let run := cs.takeWhile isPlain
  setInput (cs.dropWhile isPlain)
  if occurs "]]>".toList run || !run.all isDocumentChar then report .fatal
  match run.filter isDocumentChar with
  | [] => return
  | kept => addNode (.text (.ofChars kept))

def endTag : ScanM Unit := do
  let expected := match (← get).frames with
    | f :: _ => f.written
    | [] => []
  let found ← name?
  let _ ← skipSpace
  require ">"
  if found != some expected then report .fatal
  closeFrame

/-- Reads a start tag after its mark.  A tag that does not end opens an element
that is closed at once. -/
def openElement : ScanM Unit := do
  let frames := (← get).frames
  if depthLimit ≤ frames.length then halt
  else
    let outer := match frames with
      | f :: _ => f.namespaces
      | [] => []
    match ← startTag? outer with
    | none => return
    | some frame =>
      modify fun st => { st with frames := frame :: st.frames }
      if ← accept "/>" then closeFrame
      else if ← accept ">" then return
      else
        report .fatal
        closeFrame

def closeAbove (base : Nat) : Nat → ScanM Unit
  | 0 => return
  | fuel + 1 => do
    if base < (← get).frames.length then
      closeFrame
      closeAbove base fuel

def plainSection : ScanM Unit := do
  match ← bodyUpTo "]]>" with
  | some body => addNode (.text (.ofChars body))
  | none => return

def markup : ScanM Unit := do
  if ← accept "![CDATA[" then plainSection
  else if ← accept "!--" then comment
  else openElement

def characterReference : ScanM Unit := do
  match ← charRef with
  | some c => addNode (.text [.char c])
  | none => return

/-- Reports what was left of a replacement text: a part of it, or open
elements. -/
def checkWhole : ScanM Unit := do
  let st ← get
  if !st.input.isEmpty || st.frames.length != 1 then report .fatal

/-- Reads the replacement text of an entity with `read`, to see that it is content
of its own, and goes back to where the reference stands. -/
def checkReplacement (name value : List Char) (read : ScanM Unit) : ScanM Unit := do
  let st ← get
  let namespaces := match st.frames with
    | f :: _ => f.namespaces
    | [] => []
  set { st with input := value, frames := [⟨[], [], namespaces, []⟩], root := none }
  read
  checkWhole
  resume st.input
  modify fun now => { now with
    frames := st.frames, root := st.root, checked := name :: now.checked }

/-- Adds what a reference to an entity stands for.  References to declared entities
stay in the tree; `check` reads a replacement text, which happens once. -/
def addReference (name : List Char) (expanding : List (List Char))
    (check : List Char → ScanM Unit) : ScanM Unit := do
  let st ← get
  match predefined? name, st.entities.lookup name with
  | some c, _ => if !st.fatal then addNode (.text [.char c])
  | none, none =>
    undeclared
    addNode (.entity (.ofChars name))
  | none, some .unparsed =>
    report .fatal
    addNode (.entity (.ofChars name))
  | none, some .external =>
    if !st.fatal then addNode (.entity (.ofChars name))
  | none, some (.internal value) =>
    if expanding.contains name then halt
    else if !st.fatal then
      if !st.checked.contains name then check value
      addNode (.entity (.ofChars name))

def entityReference (expanding : List (List Char))
    (check : List Char → List Char → ScanM Unit) : ScanM Unit := do
  match ← entityName? with
  | none => return
  | some name => addReference name expanding (check name)

/-- Reads content until an end tag that closes the element at depth `base`, or
to the end. -/
def content : Nat → Nat → List (List Char) → ScanM Unit
  | 0, _, _ => halt
  | fuel + 1, base, expanding => do
    match ← input with
    | [] => return
    | '<' :: '/' :: rest =>
      if (← get).frames.length ≤ base then return
      setInput rest
      endTag
      content fuel base expanding
    | '<' :: '?' :: rest =>
      setInput rest
      instruction
      content fuel base expanding
    | '<' :: rest =>
      setInput rest
      markup
      content fuel base expanding
    | '&' :: '#' :: rest =>
      setInput rest
      characterReference
      content fuel base expanding
    | '&' :: rest =>
      setInput rest
      entityReference expanding fun name value =>
        checkReplacement name value (content fuel 1 (name :: expanding))
      content fuel base expanding
    | _ =>
      characters
      content fuel base expanding

def rootElement (fuel : Nat) : ScanM Unit := do
  openElement
  if (← get).frames.isEmpty then return
  content fuel 1 []
  if ← accept "</" then endTag
  else
    report .fatal
    closeAbove 0 ((← get).frames.length + 1)

def versionNumber? : ScanM (Option (List Char)) := do
  match ← input with
  | d :: '.' :: rest =>
    if isDecimal d then
      setInput (rest.dropWhile isDecimal)
      return some (d :: '.' :: rest.takeWhile isDecimal)
    else return none
  | _ => return none

/-- An item of the declaration: a keyword, an equals sign and a value in
quotes, read by `value`. -/
def declarationItem {α : Type} (keyword : String) (value : ScanM (Option α)) :
    ScanM (Option α) := do
  if !(← accept keyword) then return none
  let _ ← skipSpace
  if !(← accept "=") then
    report .fatal
    return none
  let _ ← skipSpace
  match ← input with
  | q :: rest =>
    if q == '"' || q == '\'' then
      setInput rest
      let v ← value
      require (String.singleton q)
      return v
    else
      report .fatal
      return none
  | [] => report .fatal; return none

def encodingName? : ScanM (Option (List Char)) := do
  let cs ← input
  let isLater (c : Char) : Bool := isLetter c || isDecimal c || "._-".toList.contains c
  match cs with
  | c :: rest =>
    if isLetter c then
      setInput (rest.dropWhile isLater)
      return some (c :: rest.takeWhile isLater)
    else
      report .fatal
      return none
  | [] => report .fatal; return none

/-- Reads what follows in the declared encoding, unless a byte order mark
settled it. -/
def switchTo (name : List Char) : ScanM Unit := do
  if (← get).marked then return
  match Charset.ofName? name with
  | some charset =>
    let (cs, whole) := charset.reread (← input)
    modify fun st => { st with input := cs, truncated := st.truncated || !whole }
  | none => report .fatal

def standaloneValue? : ScanM (Option Bool) := do
  if ← accept "no" then return some false
  else if ← accept "yes" then return some true
  else
    report .fatal
    return none

def versionItem : ScanM Unit := do
  let _ ← skipSpace
  match ← declarationItem "version" versionNumber? with
  | none => report .fatal
  | some version =>
    if version != "1.0".toList then
      report (if version.take 2 == "1.".toList then .warning else .fatal)

def standaloneItem : ScanM Unit := do
  match ← declarationItem "standalone" standaloneValue? with
  | some b => modify fun st => { st with standalone := b }
  | none => pure ()
  let _ ← skipSpace
  if ← accept "?>" then return
  else
    report .fatal
    setInput ((← input).dropWhile (· != '>'))
    let _ ← accept ">"

def encodingItem : ScanM Unit := do
  match ← declarationItem "encoding" encodingName? with
  | none => standaloneItem
  | some name =>
    switchTo name
    if ← accept "?>" then return
    else
      requireSpace
      standaloneItem

def declaration : ScanM Unit := do
  versionItem
  if ← accept "?>" then return
  else
    requireSpace
    encodingItem

def prolog (fuel : Nat) : ScanM Unit := do
  misc fuel
  if ← accept "<!DOCTYPE" then
    doctype fuel
    misc fuel
  else return

def checkEnd : ScanM Unit := do
  let st ← get
  if !st.input.isEmpty || st.truncated then report .fatal

def documentBody (fuel : Nat) : ScanM Unit := do
  prolog fuel
  if ← accept "<" then
    rootElement fuel
    misc fuel
    checkEnd
  else report .fatal

/-- Reads a document.  The fuel is computed from the text that follows the
declaration, so that nothing depends on how long the declaration is. -/
def document : ScanM Unit := do
  match ← input with
  | [] => halt
  | cs =>
    match Text.afterStart? "<?xml".toList cs with
    | some (c :: rest) =>
      if isSpace c then
        setInput (c :: rest)
        declaration
    | _ => pure ()
    documentBody (8 * (← input).length + 64)

/-- The state in which a document's reading starts.  A byte order mark is
skipped when at least four bytes are there. -/
def Scan.start (cs : List Char) : Scan :=
  match cs with
  | '\ufeff' :: c :: rest => { input := c :: rest, marked := true }
  | _ => { input := cs }

inductive Reading where
  | refused (detail : Text)
  | rootless
  | root (e : Element)
  deriving DecidableEq

/-- Reads a document, leniently if `recover` is set. -/
def read (recover : Bool) (cs : List Char) : Reading :=
  let st := (document.run (Scan.start cs)).2
  let accepted := !st.halted && (recover || !(st.fatal || st.last == some .error))
  if !accepted then .refused "not well-formed"
  else
    match st.root with
    | some e => .root e
    | none => .rootless

/-- What reads a document from its bytes, leniently if asked to. -/
abbrev Reader : Type := Bool → List UInt8 → Reading

def readBytes : Reader := fun recover bytes =>
  match Text.Utf8.decode bytes with
  | .ok cs => read recover cs
  | .error refusal => .refused refusal.message

end XmlHarvest.Xml
