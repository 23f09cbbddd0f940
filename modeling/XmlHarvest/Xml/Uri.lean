import XmlHarvest.Xml.Chars

/-! # Identifiers of resources

The grammar of references: a scheme, an authority, a path, a query and a
fragment, most of which may be missing.  Namespace names have to follow it. -/
set_option autoImplicit false

namespace XmlHarvest.Xml.Uri

def isUnreserved (c : Char) : Bool :=
  isLetter c || isDecimal c || "-._~".toList.contains c

def isSubDelimiter (c : Char) : Bool := "!$&'()*+,;=".toList.contains c

/-- The rest of a text after all leading characters that are `plain`,
unreserved, delimiters of parts, or a percent sign with two hexadecimal
digits. -/
def skipChars (plain : Char → Bool) : List Char → List Char
  | '%' :: a :: b :: rest =>
    if (hexValue? a).isSome && (hexValue? b).isSome then skipChars plain rest
    else '%' :: a :: b :: rest
  | c :: rest =>
    if isUnreserved c || isSubDelimiter c || plain c then skipChars plain rest else c :: rest
  | [] => []

def isPathMark (c : Char) : Bool := c == ':' || c == '@'

def skipPath (cs : List Char) : List Char :=
  skipChars (fun c => isPathMark c || c == '/') cs

def skipAuthority? (cs : List Char) : Option (List Char) :=
  let host := match skipChars (· == ':') cs with
    | '@' :: rest => rest
    | _ => cs
  let afterHost? := match host with
    | '[' :: rest =>
      match rest.dropWhile (· != ']') with
      | ']' :: tail => some tail
      | _ => none
    | _ => some (skipChars (fun _ => false) host)
  match afterHost? with
  | some (':' :: p :: rest) => if isDecimal p then some (rest.dropWhile isDecimal) else none
  | some [':'] => none
  | other => other

/-- The rest after an authority and a path that is empty or begins with a
slash, or after a path alone. -/
def skipHierarchy? (cs : List Char) : Option (List Char) :=
  match cs with
  | '/' :: '/' :: rest =>
    match skipAuthority? rest with
    | some ('/' :: path) => some (skipPath path)
    | other => other
  | _ => some (skipPath cs)

def isTail (cs : List Char) : Bool :=
  let mark (c : Char) : Bool := isPathMark c || c == '/' || c == '?'
  let afterQuery := match cs with
    | '?' :: rest => skipChars mark rest
    | _ => cs
  match afterQuery with
  | [] => true
  | '#' :: rest => (skipChars (fun c => mark c || c == '[' || c == ']') rest).isEmpty
  | _ => false

def isHierarchyAndTail (cs : List Char) : Bool :=
  match skipHierarchy? cs with
  | some rest => isTail rest
  | none => false

def afterScheme? (cs : List Char) : Option (List Char) :=
  match cs with
  | c :: rest =>
    if isLetter c then
      match rest.dropWhile fun d => isLetter d || isDecimal d || "+-.".toList.contains d with
      | ':' :: tail => some tail
      | _ => none
    else none
  | [] => none

def isAbsolute (cs : List Char) : Bool :=
  match afterScheme? cs with
  | some rest => isHierarchyAndTail rest
  | none => false

/-- Whether a text is a reference without a scheme: the first segment of a
relative path has no colon. -/
def isRelative (cs : List Char) : Bool :=
  match cs with
  | '/' :: _ => isHierarchyAndTail cs
  | _ =>
    match skipChars (· == '@') cs with
    | ':' :: _ => false
    | _ => isHierarchyAndTail cs

def isReference (cs : List Char) : Bool := isAbsolute cs || isRelative cs

example : isReference "urn:x".toList ∧ ¬ isReference "a b".toList := by decide +kernel

end XmlHarvest.Xml.Uri
