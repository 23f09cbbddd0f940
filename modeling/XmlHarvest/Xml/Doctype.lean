import XmlHarvest.Xml.AttributeValue

/-! # Document type declarations

The internal subset is read for its grammar and for the entities that it
declares.  External parts are never fetched; that they exist makes references
to undeclared entities acceptable. -/
set_option autoImplicit false

namespace XmlHarvest.Xml

def quotedText? : ScanM (Option (List Char)) := do
  match ← input with
  | q :: rest =>
    if q == '"' || q == '\'' then
      match Text.cutAt? q rest with
      | some (body, tail) =>
        setInput tail
        if !body.all isDocumentChar then report .fatal
        return some body
      | none => report .fatal; setInput []; return some []
    else return none
  | [] => return none

def requireQuoted : ScanM (List Char) := do
  match ← quotedText? with
  | some body => return body
  | none => report .fatal; return []

def isPublicIdChar (c : Char) : Bool :=
  isLetter c || isDecimal c || " \n\r-'()+,./:=?;!*#@$_%".toList.contains c

def externalId? : ScanM (Option (List Char)) := do
  if ← accept "SYSTEM" then
    requireSpace
    return some (← requireQuoted)
  else if ← accept "PUBLIC" then
    requireSpace
    if !(← requireQuoted).all isPublicIdChar then report .fatal
    requireSpace
    return some (← requireQuoted)
  else return none

/-- The replacement text that the literal value of an entity stands for:
character references are expanded, entity references are kept. -/
def replacement? : Nat → List Char → Option (List Char)
  | 0, _ => none
  | _, [] => some []
  | _, '%' :: _ => none
  | fuel + 1, '&' :: '#' :: rest =>
    match charRef.run { input := rest } with
    | (some c, st) => (replacement? fuel st.input).map (c :: ·)
    | (none, _) => none
  | fuel + 1, '&' :: rest =>
    match takeName? rest with
    | some (name, ';' :: tail) =>
      (replacement? fuel tail).map fun more => '&' :: (name ++ ';' :: more)
    | _ => none
  | fuel + 1, c :: rest => (replacement? fuel rest).map (c :: ·)

def declarationEnd : ScanM Unit := do
  let _ ← skipSpace
  require ">"

/-- Remembers an entity; the first declaration of a name counts. -/
def declare (isParameter : Bool) (name : List Char) (e : Entity) : ScanM Unit :=
  modify fun st =>
    if isParameter then { st with parameters := st.parameters ++ [(name, e)] }
    else { st with entities := st.entities ++ [(name, e)] }

def externalEntity (isParameter : Bool) (name : List Char) : ScanM Unit := do
  match ← externalId? with
  | none => report .fatal
  | some system =>
    if system.contains '#' then report .fatal
    let spaced ← skipSpace
    if isParameter then declare true name .external
    else if ← accept "NDATA" then
      if !spaced then report .fatal
      requireSpace
      let _ ← requireName
      declare false name .unparsed
    else declare false name .external

def entityDefinition (isParameter : Bool) (name : List Char) : ScanM Unit := do
  requireSpace
  match ← quotedText? with
  | some literal =>
    match replacement? (literal.length + 1) literal with
    | some value => declare isParameter name (.internal value)
    | none => report .fatal
  | none => externalEntity isParameter name

def entityDeclaration : ScanM Unit := do
  requireSpace
  let isParameter ← accept "%"
  if isParameter then requireSpace
  match ← requireName with
  | none => return
  | some name =>
    if name.contains ':' then report .error
    entityDefinition isParameter name
    declarationEnd

def occurrence : ScanM Unit := do
  match ← input with
  | c :: rest => if c == '?' || c == '*' || c == '+' then setInput rest
  | [] => return

/-- The rest of a choice or sequence whose separator is `sep`. -/
def modelRest (particle : ScanM Unit) : Nat → Option Char → ScanM Unit
  | 0, _ => halt
  | fuel + 1, sep => do
    let _ ← skipSpace
    match ← input with
    | ')' :: rest =>
      setInput rest
      occurrence
    | c :: rest =>
      if (c == ',' || c == '|') && (sep.isNone || sep == some c) then
        setInput rest
        let _ ← skipSpace
        particle
        modelRest particle fuel (some c)
      else report .fatal
    | [] => report .fatal

def particle : Nat → ScanM Unit
  | 0 => halt
  | fuel + 1 => do
    if ← accept "(" then
      let _ ← skipSpace
      particle fuel
      modelRest (particle fuel) fuel none
    else
      let _ ← requireName
      occurrence

def mixedNames : Nat → ScanM Unit
  | 0 => halt
  | fuel + 1 => do
    let _ ← skipSpace
    if ← accept "|" then
      let _ ← skipSpace
      let _ ← requireName
      mixedNames fuel
    else require ")*"

def groupModel (fuel : Nat) : ScanM Unit := do
  let _ ← skipSpace
  if ← accept "#PCDATA" then
    let _ ← skipSpace
    if ← accept ")" then
      let _ ← accept "*"
    else mixedNames fuel
  else
    particle fuel
    modelRest (particle fuel) fuel none

def contentModel (fuel : Nat) : ScanM Unit := do
  if ← accept "EMPTY" then return
  else if ← accept "ANY" then return
  else if ← accept "(" then groupModel fuel
  else report .fatal

def elementDeclaration : ScanM Unit := do
  requireSpace
  let _ ← requireName
  requireSpace
  contentModel ((← input).length + 1)
  declarationEnd

def enumerationRest (item : ScanM (Option (List Char))) : Nat → ScanM Unit
  | 0 => halt
  | fuel + 1 => do
    let _ ← skipSpace
    if (← item).isNone then report .fatal
    let _ ← skipSpace
    if ← accept "|" then enumerationRest item fuel
    else require ")"

def acceptAny : List String → ScanM Bool
  | [] => return false
  | keyword :: others => do
    if ← accept keyword then return true
    else acceptAny others

/-- The type of an attribute; the result tells whether its values are texts of
any form. -/
def attributeType (fuel : Nat) : ScanM Bool := do
  if ← accept "CDATA" then return true
  else
    if ← acceptAny ["IDREFS", "IDREF", "ID", "ENTITIES", "ENTITY", "NMTOKENS", "NMTOKEN"] then
      pure ()
    else if ← accept "NOTATION" then
      requireSpace
      require "("
      enumerationRest name? fuel
    else if ← accept "(" then enumerationRest nameToken? fuel
    else report .fatal
    return false

def attributeDefault? : ScanM (Option (List Char)) := do
  if ← accept "#REQUIRED" then return none
  if ← accept "#IMPLIED" then return none
  if ← accept "#FIXED" then requireSpace
  quotedValue?

def collapseSpaces (cs : List Char) : List Char :=
  Text.joinWith [' '] ((Text.splitOn ' ' cs).filter (!·.isEmpty))

def attributeDefinition (element name : List Char) (fuel : Nat) : ScanM Unit := do
  requireSpace
  let isText ← attributeType fuel
  requireSpace
  let value ← attributeDefault?
  let value := if isText then value else value.map collapseSpaces
  modify fun st => st.declareAttribute ⟨element, name, value⟩

def attributeDeclarations (element : List Char) : Nat → ScanM Unit
  | 0 => halt
  | fuel + 1 => do
    let spaced ← skipSpace
    if ← accept ">" then return
    if !spaced then report .fatal
    match ← requireName with
    | none => return
    | some name =>
      attributeDefinition element name fuel
      attributeDeclarations element fuel

def attributeListDeclaration : ScanM Unit := do
  requireSpace
  match ← requireName with
  | none => return
  | some element => attributeDeclarations element ((← input).length + 1)

def notationId : ScanM Unit := do
  if ← accept "PUBLIC" then
    requireSpace
    if !(← requireQuoted).all isPublicIdChar then report .fatal
    if ← skipSpace then
      let _ ← quotedText?
  else if (← externalId?).isNone then report .fatal

def notationDeclaration : ScanM Unit := do
  requireSpace
  match ← requireName with
  | none => return
  | some name =>
    if name.contains ':' then report .error
    requireSpace
    notationId
    declarationEnd

/-- Reads a reference to a parameter entity after its mark.  The result is the
replacement text, if it is known. -/
def parameterText? : ScanM (Option (List Char)) := do
  match ← entityName? with
  | none => return none
  | some name =>
    modify fun st => { st with parameterRefs := true }
    match (← get).parameters.lookup name with
    | none =>
      undeclared
      return none
    | some (.internal value) => return some value
    | some _ => return none

/-- Goes back to the text around a replacement text, unless reading has come to a
halt. -/
def resume (outer : List Char) : ScanM Unit :=
  modify fun st => { st with input := if st.halted then [] else outer }

/-- Reads declarations, comments and instructions.  The replacement text of a
reference is read in its place, and on its own; the result tells whether all of
each such text could be read. -/
def declarations : Nat → ScanM Bool
  | 0 => do halt; return false
  | fuel + 1 => do
    let _ ← skipSpace
    if ← accept "%" then
      match ← parameterText? with
      | none => declarations fuel
      | some value =>
        let outer ← input
        setInput value
        let whole ← declarations fuel
        let left ← input
        resume outer
        if whole && left.isEmpty then declarations fuel
        else
          report .fatal
          return false
    else if ← accept "<?" then
      instruction
      declarations fuel
    else if ← accept "<!--" then
      comment
      declarations fuel
    else if ← accept "<!ENTITY" then
      entityDeclaration
      declarations fuel
    else if ← accept "<!ELEMENT" then
      elementDeclaration
      declarations fuel
    else if ← accept "<!ATTLIST" then
      attributeListDeclaration
      declarations fuel
    else if ← accept "<!NOTATION" then
      notationDeclaration
      declarations fuel
    else return true

def internalSubset (fuel : Nat) : ScanM Unit := do
  let _ ← declarations fuel
  require "]"

def doctypeHead : ScanM Unit := do
  requireSpace
  let _ ← requireName
  let _ ← skipSpace
  if (← externalId?).isSome then modify fun st => { st with externalSubset := true }
  let _ ← skipSpace

def doctype (fuel : Nat) : ScanM Unit := do
  doctypeHead
  if ← accept "[" then
    internalSubset fuel
    let _ ← skipSpace
  require ">"

end XmlHarvest.Xml
