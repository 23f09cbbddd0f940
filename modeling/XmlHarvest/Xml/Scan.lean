import XmlHarvest.Text.Split
import XmlHarvest.Xml.Chars
import XmlHarvest.Xml.Node

/-! # Scanning

The state in which a document is read: the characters still to come, what has
been reported about those before them, what the document type declares, and the
elements that are open.  Reading goes on after a mistake; whether a document
with mistakes is accepted is decided at its end. -/
set_option autoImplicit false

namespace XmlHarvest.Xml

inductive Severity where
  | warning
  | error
  | fatal
  deriving DecidableEq, Repr

/-- Declared entities: a replacement text, a text in another file, or data. -/
inductive Entity where
  | internal (value : List Char)
  | external
  | unparsed
  deriving Repr

/-- The namespace names of prefixes, nearest first; no prefix stands for the
default. -/
abbrev Namespaces : Type := List (Option (List Char) × List Char)

/-- The declaration of an attribute, with its default value if it has one. -/
structure AttributeDeclaration where
  element : List Char
  name : List Char
  value : Option (List Char)

/-- An open element: its name as written, its tag, the namespaces in force in
it, and what it contains so far, last first. -/
structure Frame where
  written : List Char
  tag : Text
  namespaces : Namespaces
  content : List Node

structure Scan where
  input : List Char
  /-- A byte order mark settled the encoding. -/
  marked : Bool := false
  /-- A mistake that no strict reading accepts was found. -/
  fatal : Bool := false
  /-- The last mistake. -/
  last : Option Severity := none
  /-- Reading cannot go on at all. -/
  halted : Bool := false
  /-- The text ends where its bytes had no reading. -/
  truncated : Bool := false
  standalone : Bool := false
  externalSubset : Bool := false
  parameterRefs : Bool := false
  entities : List (List Char × Entity) := []
  parameters : List (List Char × Entity) := []
  /-- The declared attributes; the first declaration of each counts. -/
  attributes : List AttributeDeclaration := []
  /-- The entities whose replacement text has been read once. -/
  checked : List (List Char) := []
  frames : List Frame := []
  root : Option Element := none

namespace Scan

def declareAttribute (st : Scan) (d : AttributeDeclaration) : Scan :=
  if st.attributes.any fun e => e.element == d.element && e.name == d.name then st
  else { st with attributes := st.attributes ++ [d] }

def defaultsOf (st : Scan) (element : List Char) : List (List Char × List Char) :=
  st.attributes.filterMap fun d =>
    if d.element == element then d.value.map fun v => (d.name, v) else none

end Scan

abbrev ScanM : Type → Type := StateM Scan

def report (s : Severity) : ScanM Unit :=
  modify fun st => { st with last := some s, fatal := st.fatal || s == .fatal }

def halt : ScanM Unit :=
  modify fun st => { st with last := some .fatal, fatal := true, halted := true, input := [] }

def input : ScanM (List Char) := do return (← get).input

def setInput (cs : List Char) : ScanM Unit :=
  modify fun st => { st with input := cs }

def lookingAt (s : String) : ScanM Bool := do
  return Text.startsWith s.toList (← input)

/-- Skips `s` if the text to come starts with it. -/
def accept (s : String) : ScanM Bool := do
  match Text.afterStart? s.toList (← input) with
  | some rest => setInput rest; return true
  | none => return false

/-- Skips `s`, or reports that it is missing. -/
def require (s : String) : ScanM Unit := do
  if !(← accept s) then report .fatal

def skipSpace : ScanM Bool := do
  let cs ← input
  setInput (cs.dropWhile isSpace)
  return match cs with
    | c :: _ => isSpace c
    | [] => false

def requireSpace : ScanM Unit := do
  if !(← skipSpace) then report .fatal

def name? : ScanM (Option (List Char)) := do
  match takeName? (← input) with
  | some (name, rest) => setInput rest; return some name
  | none => return none

def nameToken? : ScanM (Option (List Char)) := do
  let cs ← input
  match cs.takeWhile isNameChar with
  | [] => return none
  | token => setInput (cs.dropWhile isNameChar); return some token

def requireName : ScanM (Option (List Char)) := do
  match ← name? with
  | some n => return some n
  | none => report .fatal; return none

/-- The characters before the first occurrence of `ending`, and the rest after
it. -/
def cutBefore? (ending : List Char) : List Char → Option (List Char × List Char)
  | [] => if ending.isEmpty then some ([], []) else none
  | c :: rest =>
    match Text.afterStart? ending (c :: rest) with
    | some tail => some ([], tail)
    | none => (cutBefore? ending rest).map fun (body, tail) => (c :: body, tail)

/-- The body of a construct that ends with `ending`.  When the end is missing
or a character that no document may contain stands before it, that is
reported, and reading goes on from there. -/
def bodyUpTo (ending : String) : ScanM (Option (List Char)) := do
  let cs ← input
  match cutBefore? ending.toList cs with
  | some (body, rest) =>
    if body.all isDocumentChar then
      setInput rest
      return some body
    else
      setInput (cs.dropWhile isDocumentChar)
      report .fatal
      return none
  | none =>
    setInput (cs.dropWhile isDocumentChar)
    report .fatal
    return none

/-- Adds a node to the innermost open element; a text joins the text before
it. -/
def addNode (n : Node) : ScanM Unit :=
  modify fun st =>
    match st.frames with
    | [] => st
    | f :: outer =>
      let content := match n, f.content with
        | .text s, .text t :: before => .text (t ++ s) :: before
        | _, before => n :: before
      { st with frames := { f with content := content } :: outer }

def closeFrame : ScanM Unit :=
  modify fun st =>
    match st.frames with
    | [] => st
    | f :: outer =>
      let children := f.content.reverse
      match outer with
      | [] => { st with frames := [], root := some ⟨f.tag, children⟩ }
      | g :: more =>
        { st with frames := { g with content := .element f.tag children :: g.content } :: more }

def occurs (part : List Char) (cs : List Char) : Bool :=
  (cutBefore? part cs).isSome

/-- Reads a comment after its opening; two hyphens inside are a mistake. -/
def comment : ScanM Unit := do
  match ← bodyUpTo "-->" with
  | none => return
  | some body =>
    if occurs ['-', '-'] (body ++ ['-']) then report .fatal
    addNode (.comment (.ofChars body))

def isXmlName (cs : List Char) : Bool := cs.map Char.toLower == "xml".toList

def checkTarget (target : List Char) : ScanM Unit := do
  if isXmlName (target.take 3) then
    if target.length == 3 then
      report .fatal
      return
    if target == "xml-stylesheet".toList || target == "xml-model".toList then return
    report .warning
  if target.contains ':' then report .error

def instruction : ScanM Unit := do
  match ← name? with
  | none => report .fatal
  | some target =>
    checkTarget target
    if ← accept "?>" then addNode (.instruction (.ofChars target) [])
    else
      requireSpace
      match ← bodyUpTo "?>" with
      | none => return
      | some body => addNode (.instruction (.ofChars target) (.ofChars body))

def misc : Nat → ScanM Unit
  | 0 => halt
  | fuel + 1 => do
    let _ ← skipSpace
    if ← accept "<?" then
      instruction
      misc fuel
    else if ← accept "<!--" then
      comment
      misc fuel
    else return

/-- The digits of a character reference and their value; the mark after them
ends the reference. -/
def charRefValue (base : Nat) (digit? : Char → Option Nat) :
    Nat → List Char → Option Nat × List Char
  | n, c :: rest =>
    if c == ';' then (some n, rest)
    else
      match digit? c with
      | some d => charRefValue base digit? (min (n * base + d) 0x110000) rest
      | none => (none, c :: rest)
  | _, [] => (none, [])

def charRef : ScanM (Option Char) := do
  let decimal (c : Char) : Option Nat := if isDecimal c then some (c.toNat - 48) else none
  let cs ← input
  let (value?, rest) := match cs with
    | 'x' :: more => charRefValue 16 hexValue? 0 more
    | _ => charRefValue 10 decimal 0 cs
  setInput rest
  match value? with
  | none => report .fatal; return none
  | some n =>
    let c := Char.ofNat n
    if c.toNat == n && n != 0 && isDocumentChar c then return some c
    else report .fatal; return none

def entityName? : ScanM (Option (List Char)) := do
  match ← requireName with
  | none => return none
  | some name =>
    if ← accept ";" then return some name
    else report .fatal; return none

def predefined? (name : List Char) : Option Char :=
  [("lt".toList, '<'), ("gt".toList, '>'), ("amp".toList, '&'), ("quot".toList, '"'),
   ("apos".toList, '\'')].lookup name

/-- Reports a reference to an entity that is not declared.  Where declarations
may stand elsewhere it is no mistake. -/
def undeclared : ScanM Unit := do
  let st ← get
  if st.standalone || !(st.externalSubset || st.parameterRefs) then report .fatal
  else report .warning

end XmlHarvest.Xml
