/-! # Characters and names

The characters that a document may contain, white space of markup, and names:
a start character followed by name characters. -/
set_option autoImplicit false

namespace XmlHarvest.Xml

def isSpace (c : Char) : Bool :=
  c == ' ' || c == '\t' || c == '\n' || c == '\r'

def isDocumentChar (c : Char) : Bool :=
  let n := c.toNat
  if n < 0x20 then n == 9 || n == 10 || n == 13
  else n != 0xFFFE && n != 0xFFFF

def isLetter (c : Char) : Bool :=
  (65 ≤ c.toNat && c.toNat ≤ 90) || (97 ≤ c.toNat && c.toNat ≤ 122)

def isDecimal (c : Char) : Bool := 48 ≤ c.toNat && c.toNat ≤ 57

def hexValue? (c : Char) : Option Nat :=
  let n := c.toNat
  if 48 ≤ n && n ≤ 57 then some (n - 48)
  else if 97 ≤ n && n ≤ 102 then some (n - 87)
  else if 65 ≤ n && n ≤ 70 then some (n - 55)
  else none

def startRanges : List (Nat × Nat) := [
  (0xC0, 0xD6), (0xD8, 0xF6), (0xF8, 0x2FF), (0x370, 0x37D), (0x37F, 0x1FFF), (0x200C, 0x200D),
  (0x2070, 0x218F), (0x2C00, 0x2FEF), (0x3001, 0xD7FF), (0xF900, 0xFDCF), (0xFDF0, 0xFFFD),
  (0x10000, 0xEFFFF)]

def isLocalStart (c : Char) : Bool :=
  isLetter c || c == '_' ||
    (128 ≤ c.toNat && startRanges.any fun (low, high) => low ≤ c.toNat && c.toNat ≤ high)

def isLocalChar (c : Char) : Bool :=
  isLocalStart c || isDecimal c || c == '-' || c == '.' || c.toNat == 0xB7 ||
    (0x300 ≤ c.toNat && c.toNat ≤ 0x36F) || (0x203F ≤ c.toNat && c.toNat ≤ 0x2040)

def isNameStart (c : Char) : Bool := isLocalStart c || c == ':'

def isNameChar (c : Char) : Bool := isLocalChar c || c == ':'

def takeName? (cs : List Char) : Option (List Char × List Char) :=
  match cs with
  | c :: rest =>
    if isNameStart c then some (c :: rest.takeWhile isNameChar, rest.dropWhile isNameChar)
    else none
  | [] => none

/-- A name without colons at the start of a text, and the rest. -/
def takeLocalName? (cs : List Char) : Option (List Char × List Char) :=
  match cs with
  | c :: rest =>
    if isLocalStart c then some (c :: rest.takeWhile isLocalChar, rest.dropWhile isLocalChar)
    else none
  | [] => none

end XmlHarvest.Xml
