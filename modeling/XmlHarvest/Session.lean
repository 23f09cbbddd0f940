import XmlHarvest.Document
import XmlHarvest.Extraction
import XmlHarvest.Schema.Reading

/-! # Sessions

A session applies one schema to one text after the other.  It remembers
nothing between texts but the statistics of its parser. -/
set_option autoImplicit false

namespace XmlHarvest

open Xml

structure Session where
  schema : Schema
  registry : Registry
  parser : Parser
  /-- Takes every text for valid, without counting it. -/
  trusting : Bool := false

namespace Session

def start (schema : Schema) (capability : Option Capability) (recover : Bool)
    (debug : Bool := false) : Session where
  schema := schema
  registry := { Registry.standard capability with debug := debug }
  parser := { recover := recover }

/-- An error that names no document names `id`. -/
def withDocument (id : Option Text) : Failure → Failure
  | .error e =>
    match e.place.document with
    | some _ => .error e
    | none => .error { e with place := { e.place with document := id } }
  | .fault f => .fault f

def extract (s : Session) (root : Element) : Outcome Value :=
  s.schema.extract s.registry root

def parse (s : Session) (text : Option Text) (id : Option Text) :
    Outcome Value × Session :=
  let (root, parser) := s.parser.parse text id
  let value := match root with
    | .ok e => (s.extract e).mapError (withDocument id)
    | .error e => .error e
  (value, { s with parser := parser })

def validate (s : Session) (text : Option Text) : Outcome Bool × Session :=
  if s.trusting then (.ok true, s)
  else
    let (valid, parser) := s.parser.validate text
    (valid, { s with parser := parser })

def reset (s : Session) : Session := { s with parser := s.parser.reset }

end Session
end XmlHarvest
