import XmlHarvest.Xml.AttributeValue
import XmlHarvest.Xml.Uri

/-! # Start tags

A start tag has a name and attributes, some of which bind namespace names.  A
name with a prefix stands for the prefix's namespace name and a local name; the
default namespace applies to elements without a prefix. -/
set_option autoImplicit false

namespace XmlHarvest.Xml

structure QualifiedName where
  qualifier : Option (List Char)
  name : List Char
  deriving DecidableEq

namespace QualifiedName

def written (q : QualifiedName) : List Char :=
  match q.qualifier with
  | some p => p ++ ':' :: q.name
  | none => q.name

/-- The name with a written form; a colon at either end separates nothing. -/
def ofWritten (cs : List Char) : QualifiedName :=
  match Text.cutAt? ':' cs with
  | some (c :: before, d :: after) => ⟨some (c :: before), d :: after⟩
  | _ => ⟨none, cs⟩

end QualifiedName

def localName? : ScanM (Option (List Char)) := do
  match takeLocalName? (← input) with
  | some (name, rest) => setInput rest; return some name
  | none => return none

/-- A name with at most one colon, which stands inside it; other colons are
reported and kept in the name. -/
def qualifiedName? : ScanM (Option QualifiedName) := do
  match ← localName? with
  | none =>
    if ← lookingAt ":" then
      match ← name? with
      | some n => report .error; return some ⟨none, n⟩
      | none => return none
    else return none
  | some first =>
    if !(← accept ":") then return some ⟨none, first⟩
    match ← localName? with
    | none =>
      report .error
      let rest := (← nameToken?).getD []
      return some ⟨none, first ++ ':' :: rest⟩
    | some second =>
      if !(← accept ":") then return some ⟨some first, second⟩
      report .error
      let rest := (← name?).getD []
      return some ⟨some first, second ++ ':' :: rest⟩

structure Attribute where
  name : QualifiedName
  value : List Char

def attributeAfterName (name : QualifiedName) : ScanM (Option Attribute) := do
  let _ ← skipSpace
  if !(← accept "=") then
    report .fatal
    return none
  let _ ← skipSpace
  match ← quotedValue? with
  | some value => return some ⟨name, value⟩
  | none => return none

def xmlUri : List Char := "http://www.w3.org/XML/1998/namespace".toList
def xmlnsUri : List Char := "http://www.w3.org/2000/xmlns/".toList

/-- Binds a prefix; an element binds a prefix once. -/
def bindNamespace (key : Option (List Char)) (uri : List Char) (bound : Namespaces) :
    ScanM Namespaces := do
  if (bound.lookup key).isSome then
    report .fatal
    return bound
  else return (key, uri) :: bound

def bindDefault (uri : List Char) (bound : Namespaces) : ScanM Namespaces := do
  if !uri.isEmpty then
    if !Uri.isReference uri then report .error
    else if !Uri.isAbsolute uri then report .warning
    if uri == xmlUri || uri == xmlnsUri then
      report .error
      return bound
  bindNamespace none uri bound

def bindPrefix (name uri : List Char) (bound : Namespaces) : ScanM Namespaces := do
  if name == "xml".toList then
    if uri != xmlUri then report .error
    return bound
  else if uri == xmlUri || name == "xmlns".toList || uri == xmlnsUri || uri.isEmpty then
    report .error
    return bound
  else
    if !Uri.isReference uri then report .error
    bindNamespace (some name) uri bound

/-- What the attributes of a start tag amount to: the namespaces that they bind
and the others, last first. -/
structure Attributes where
  bound : Namespaces := []
  others : List QualifiedName := []

def addAttribute (acc : Attributes) (a : Attribute) : ScanM Attributes := do
  match a.name.qualifier with
  | none =>
    if a.name.name == "xmlns".toList then
      return { acc with bound := ← bindDefault a.value acc.bound }
    else return { acc with others := a.name :: acc.others }
  | some q =>
    if q == "xmlns".toList then
      return { acc with bound := ← bindPrefix a.name.name a.value acc.bound }
    else
      if q == "xml".toList && a.name.name == "space".toList &&
          !(a.value == "default".toList || a.value == "preserve".toList) then
        report .warning
      return { acc with others := a.name :: acc.others }

def atTagEnd : ScanM Bool := do
  match ← input with
  | '>' :: _ => return true
  | '/' :: '>' :: _ => return true
  | _ => return false

def attributes : Nat → Attributes → ScanM Attributes
  | 0, acc => do halt; return acc
  | fuel + 1, acc => do
    if ← atTagEnd then return acc
    match ← input with
    | [] => return acc
    | c :: _ =>
      if !isDocumentChar c then return acc
      match ← qualifiedName? with
      | none =>
        report .fatal
        return acc
      | some name =>
        let acc ← match ← attributeAfterName name with
          | some a => addAttribute acc a
          | none => pure acc
        if ← atTagEnd then return acc
        if !(← skipSpace) then
          report .fatal
          return acc
        attributes fuel acc

def namespaceOf? (scope : Namespaces) (qualifier : Option (List Char)) : Option (List Char) :=
  if qualifier == some "xml".toList then some xmlUri
  else
    match scope.lookup qualifier with
    | some [] => none
    | other => other

/-- Reports attributes that occur twice, by name or by namespace, and prefixes
without a namespace. -/
def checkAttributes (scope : Namespaces) :
    List (QualifiedName × Option (List Char)) → List QualifiedName → ScanM Unit
  | _, [] => return
  | seen, q :: rest => do
    let uri ← match q.qualifier with
      | none => pure none
      | some _ => do
        let found := namespaceOf? scope q.qualifier
        if found.isNone then report .error
        pure found
    if seen.any fun (other, _) => other == q then report .fatal
    else if uri.isSome && seen.any fun (other, u) => other.name == q.name && u == uri then
      report .error
    checkAttributes scope ((q, uri) :: seen) rest

def tagText (uri : Option (List Char)) (name : List Char) : Text :=
  match uri with
  | some u => .ofChars ('\x7b' :: (u ++ '\x7d' :: name))
  | none => .ofChars name

/-- Adds the attributes that an element has by default.  Namespaces that its
start tag binds and attributes that it has are left as they are. -/
def addDefaults (defaults : List (List Char × List Char)) (acc : Attributes) : Attributes :=
  defaults.foldl (fun acc (written, value) =>
    let q := QualifiedName.ofWritten written
    let bind (key : Option (List Char)) : Attributes :=
      if (acc.bound.lookup key).isSome then acc else { acc with bound := (key, value) :: acc.bound }
    if written == "xmlns".toList then bind none
    else if q.qualifier == some "xmlns".toList then
      if q.name == "xml".toList then acc else bind (some q.name)
    else if acc.others.contains q then acc
    else { acc with others := q :: acc.others }) acc

/-- Reads a start tag after its mark, up to its end.  The result is the open
element.  Its attributes end before the next mark. -/
def startTag? (outer : Namespaces) : ScanM (Option Frame) := do
  match ← qualifiedName? with
  | none =>
    report .fatal
    return none
  | some q =>
    let _ ← skipSpace
    let attrs ← attributes (((← input).takeWhile (· != '<')).length + 1) {}
    let attrs := addDefaults ((← get).defaultsOf q.written) attrs
    let scope := attrs.bound ++ outer
    let uri := namespaceOf? scope q.qualifier
    if q.qualifier.isSome && uri.isNone then report .error
    checkAttributes scope [] attrs.others.reverse
    let name := if uri.isNone then q.written else q.name
    return some ⟨q.written, tagText uri name, scope, []⟩

end XmlHarvest.Xml
