import XmlHarvest.Error
import XmlHarvest.Text.Blank
import XmlHarvest.Text.Split
import XmlHarvest.Xml.Reader

/-! # Documents as texts

A text is cleaned before it is read: marks of byte order and hidden control
characters at its front are dropped, line ends become line feeds, and white
space around the text is dropped.  What is read are the bytes of the cleaned text
in UTF-8.  A parser counts how many texts it parsed and how many it validated; it
keeps nothing else. -/
set_option autoImplicit false

namespace XmlHarvest

open Xml

namespace Document

def dropMark : Text → Text
  | c :: rest => if c == '\ufeff' then rest else c :: rest
  | [] => []

def dropVisibleMark : Text → Text
  | a :: b :: c :: rest =>
    if a == 'ï' && b == '»' && c == '¿' then rest else a :: b :: c :: rest
  | cs => cs

/-- A control character that is neither a tabulator nor a line end. -/
def isHidden (c : CodePoint) : Bool :=
  c.toNat < 32 && c != '\t' && c != '\n' && c != '\r'

def joinLineEnds : Text → Text
  | .char '\r' :: .char '\n' :: rest => '\n' :: joinLineEnds rest
  | c :: rest => c :: joinLineEnds rest
  | [] => []

def normalizeLineEnds (cs : Text) : Text :=
  (joinLineEnds cs).map fun c : CodePoint => if c == '\r' then '\n' else c

def clean (cs : Text) : Text :=
  Text.trim (normalizeLineEnds ((dropVisibleMark (dropMark cs)).dropWhile isHidden))

def isBlank (cs : Text) : Bool := Text.isBlankText cs

def bytes (cs : Text) : Except Fault (List UInt8) :=
  (Text.Utf8.encode cs).mapError .encoding

end Document

/-- The statistics of a parser, what reads for it, and whether it reads
leniently. -/
structure Parser where
  recover : Bool
  parsed : Nat := 0
  validated : Nat := 0
  reader : Reader := readBytes

namespace Parser

def reset (p : Parser) : Parser := { p with parsed := 0, validated := 0 }

def parsingError {α : Type} (problem : ParsingProblem) (content : Option Text)
    (document : Option Text) : Outcome α :=
  .error (.error ⟨.parsing problem (content.map Error.excerpt), { document := document }⟩)

def read (p : Parser) (cs : Text) : Outcome Reading := do
  .ok (p.reader p.recover (← Outcome.ofFault (Document.bytes cs)))

/-- The root of a text that is not blank; `document` names the text in
errors. -/
def readText (p : Parser) (text : Text) (document : Text) : Outcome Element := do
  match ← p.read (Document.clean text) with
  | .root e => .ok e
  | .rootless => parsingError .noRoot (some text) (some document)
  | .refused detail => parsingError (.malformed detail) (some text) (some document)

/-- A text's name in errors: the given one, unless that is missing or empty. -/
def documentName (id : Option Text) (count : Nat) : Text :=
  match id with
  | some s => if s == "" then "parse_" ++ toString count else s
  | none => "parse_" ++ toString count

def parse (p : Parser) (text : Option Text) (id : Option Text) : Outcome Element × Parser :=
  match text with
  | none => (parsingError .empty none id, p)
  | some text =>
    if Document.isBlank text then (parsingError .empty none id, p)
    else
      let p := { p with parsed := p.parsed + 1 }
      (p.readText text (documentName id p.parsed), p)

def looksLikeMarkup (cs : Text) : Bool :=
  cs.head? == some (.char '<') && cs.getLast? == some (.char '>')

def isWellFormed (p : Parser) (text : Text) : Outcome Bool := do
  let cs := Document.clean text
  if looksLikeMarkup cs then
    match ← p.read cs with
    | .root _ => .ok true
    | _ => .ok false
  else .ok false

def validate (p : Parser) (text : Option Text) : Outcome Bool × Parser :=
  match text with
  | none => (.ok false, p)
  | some text =>
    if Document.isBlank text then (.ok false, p)
    else (p.isWellFormed text, { p with validated := p.validated + 1 })

end Parser
end XmlHarvest
