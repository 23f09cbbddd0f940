import XmlHarvest.Xml.Scan

/-! # Attribute values

A value in quotes, in which references stand for characters and every white
space is a space. -/
set_option autoImplicit false

namespace XmlHarvest.Xml

/-- A mark of less-than in the replacement text of an entity, or of one that
it refers to, has no place in an attribute. -/
def entityHoldsTag (entities : List (List Char × Entity)) : Nat → List Char → Bool
  | 0, _ => true
  | _, [] => false
  | _, '<' :: _ => true
  | fuel + 1, '&' :: rest =>
    match takeName? rest with
    | some (name, _) =>
      match predefined? name, entities.lookup name with
      | none, some (.internal value) =>
        entityHoldsTag entities fuel value || entityHoldsTag entities fuel rest
      | _, _ => entityHoldsTag entities fuel rest
    | none => entityHoldsTag entities fuel rest
  | fuel + 1, _ :: rest => entityHoldsTag entities fuel rest

def attributeReference : ScanM (Option (List Char)) := do
  match ← entityName? with
  | none => return none
  | some name =>
    match predefined? name with
    | some c => return some [c]
    | none =>
      match (← get).entities.lookup name with
      | none => undeclared
      | some (.internal value) =>
        if entityHoldsTag (← get).entities (2 * value.length + 64) value then report .fatal
      | some _ => report .fatal
      return some ('&' :: (name ++ [';']))

/-- Reads an attribute value after its quote.  Reading stops at a character
that has no place in it. -/
def attributeValue (quote : Char) : Nat → List Char → ScanM (Option (List Char))
  | 0, _ => do halt; return none
  | fuel + 1, acc => do
    match ← input with
    | [] => report .fatal; return none
    | c :: rest =>
      if c == quote then
        setInput rest
        return some acc.reverse
      else if c == '<' || !isDocumentChar c then
        report .fatal
        return none
      else if c == '&' then
        setInput rest
        if ← accept "#" then
          match ← charRef with
          | some ch => attributeValue quote fuel (ch :: acc)
          | none => return none
        else
          match ← attributeReference with
          | some cs => attributeValue quote fuel (cs.reverse ++ acc)
          | none => attributeValue quote fuel acc
      else
        setInput rest
        attributeValue quote fuel ((if isSpace c then ' ' else c) :: acc)

def quotedValue? : ScanM (Option (List Char)) := do
  match ← input with
  | q :: rest =>
    if q == '"' || q == '\'' then
      setInput rest
      attributeValue q ((rest.takeWhile (· != q)).length + 1) []
    else
      report .fatal
      return none
  | [] => report .fatal; return none

end XmlHarvest.Xml
