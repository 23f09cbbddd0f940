import XmlHarvest.Fault
import XmlHarvest.Value.Basic

/-! # Errors of an extraction

What can go wrong while a schema is loaded, a document is parsed and a schema
is applied, together with the place where it happened.  Places are filled in
while an error travels outward: what is already known is kept, so the innermost
place wins. -/
set_option autoImplicit false

namespace XmlHarvest

inductive ErrorKind where
  | extraction
  | parsing
  | configuration
  | definition
  | malformedField
  | missingModifier
  | pathNotFound
  | unknownModifier
  | unknownMapper
  | transformation
  deriving DecidableEq, Repr

inductive FailureKind where
  | error (kind : ErrorKind)
  | fault (kind : FaultKind)
  deriving DecidableEq, Repr

inductive ParsingProblem where
  | empty
  | malformed (detail : Text)
  | noRoot
  | other (message : Text)
  deriving DecidableEq, Repr

def ParsingProblem.message : ParsingProblem → Text
  | .empty => "XML content is empty or None"
  | .malformed detail => "XML syntax error: " ++ detail
  | .noRoot => "XML content has no root element"
  | .other m => m

inductive Finding where
  | baseMissing (path : Text)
  | schemaMissing (path : Text)
  | unknownLevel (name : Text)
  | negativeIndent
  deriving DecidableEq, Repr

def Finding.message : Finding → Text
  | baseMissing path => "Base configuration path does not exist: " ++ path
  | schemaMissing path => "Schema file does not exist: " ++ path
  | unknownLevel name => "Invalid log level: " ++ name
  | negativeIndent => "JSON indent cannot be negative"

/-- The ways in which settings, a schema file or a source of modifiers cannot be
used. -/
inductive ConfigurationProblem where
  /-- The indentation of the environment is no integer. -/
  | indent (raw : Text)
  | noSchemaPath
  | schemaMissing (path : Text)
  | unsupportedFormat (suffix : Text)
  | schemaMalformed (path : Text)
  | schemaUnreadable (path detail : Text)
  | invalid (findings : List Finding)
  | emptyModule (reference : Text)
  | importFailed (name detail : Text)
  | attributeMissing (name member : Text)
  | other (message : Text)
  deriving DecidableEq, Repr

namespace ConfigurationProblem

def malformedDetail : Text := "not a well-formed document"

def message : ConfigurationProblem → Text
  | indent raw => "XML_DATA_EXTRACTOR_JSON_INDENT must be an integer, got '" ++ raw ++ "'"
  | noSchemaPath => "No schema path given and XML_DATA_EXTRACTOR_SCHEMA_PATH is not set"
  | schemaMissing path => "Schema file not found: " ++ path
  | unsupportedFormat suffix => "Unsupported file format: " ++ suffix
  | schemaMalformed path => "Failed to parse schema file " ++ path ++ ": " ++ malformedDetail
  | schemaUnreadable path detail =>
    "Failed to read schema file " ++ path ++ ": " ++ detail
  | invalid findings =>
    "Configuration validation failed: " ++ Text.joinWith "; " (findings.map Finding.message)
  | emptyModule reference =>
    "Invalid modifiers reference '" ++ reference ++ "', expected 'module:attribute'"
  | importFailed name detail =>
    "Cannot import modifiers module '" ++ name ++ "': " ++ detail
  | attributeMissing name member =>
    "Module '" ++ name ++ "' has no attribute '" ++ member ++ "'"
  | other m => m

end ConfigurationProblem

structure Place where
  collection : Option Text := none
  field : Option Text := none
  path : Option Text := none
  document : Option Text := none
  deriving DecidableEq, Repr

namespace Place

/-- `known` if there is one, else `found` unless that is empty. -/
def fill (known found : Option Text) : Option Text :=
  match known, found with
  | some s, _ => some s
  | none, some "" => none
  | none, found => found

/-- Adds what `outer` knows of a schema place.  Empty names add nothing. -/
def within (place outer : Place) : Place :=
  { place with
    collection := fill place.collection outer.collection
    field := fill place.field outer.field
    path := fill place.path outer.path }

def part (label : Text) : Option Text → List Text
  | none | some "" => []
  | some s => [label ++ "=" ++ s]

def parts (place : Place) : List Text :=
  part "collection" place.collection ++ part "field" place.field ++ part "path" place.path ++
    part "document" place.document

end Place

mutual

inductive Problem where
  | extraction (message : Text)
  /-- A text that is no document; `content` is the start of that text. -/
  | parsing (problem : ParsingProblem) (content : Option Text)
  | configuration (problem : ConfigurationProblem)
  | definition (message : Text)
  | malformedField (message : Text)
  | missingModifier
  | pathNotFound (segment : Text)
  | unknownModifier (name : Text)
  | unknownMapper (name : Text)
  /-- A modifier failed on `source` with `cause`. -/
  | transformation (message : Text) (modifier : Option Text) (source : Option Value)
      (cause : Option Failure)
  deriving Repr

structure Error where
  problem : Problem
  place : Place := {}
  deriving Repr

/-- What stops a computation: an error with a place, or a bare fault. -/
inductive Failure where
  | error (e : Error)
  | fault (f : Fault)
  deriving Repr

end

namespace Problem

def kind : Problem → ErrorKind
  | extraction _ => .extraction
  | parsing _ _ => .parsing
  | configuration _ => .configuration
  | definition _ => .definition
  | malformedField _ => .malformedField
  | missingModifier => .missingModifier
  | pathNotFound _ => .pathNotFound
  | unknownModifier _ => .unknownModifier
  | unknownMapper _ => .unknownMapper
  | transformation _ _ _ _ => .transformation

def message : Problem → Text
  | extraction m | definition m | malformedField m => m
  | configuration p => p.message
  | parsing p _ => p.message
  | missingModifier => "A field with a list of paths requires a modifier to combine the values"
  | pathNotFound segment => "No element matches segment '" ++ segment ++ "'"
  | unknownModifier name => "Unknown modifier '" ++ name ++ "'"
  | unknownMapper name => "Unknown mapper '" ++ name ++ "'"
  | transformation m _ _ _ => m

end Problem

namespace Error

def kind (e : Error) : ErrorKind := e.problem.kind

def message (e : Error) : Text :=
  match e.place.parts with
  | [] => e.problem.message
  | parts => e.problem.message ++ " (" ++ Text.joinWith ", " parts ++ ")"

def within (e : Error) (outer : Place) : Error :=
  { e with place := e.place.within outer }

def excerpt (content : Text) : Text :=
  if 500 < content.length then content.take 500 ++ ("..." : Text) else content

end Error

namespace Failure

def kind : Failure → FailureKind
  | error e => .error e.kind
  | fault f => .fault f.kind

def message : Failure → Text
  | error e => e.message
  | fault f => f.message

def text? : Failure → Except Fault Text
  | error e => .ok e.message
  | fault f => f.text?

def of (p : Problem) : Failure := .error ⟨p, {}⟩

/-- Adds a schema place to an error; faults carry no place. -/
def within (outer : Place) : Failure → Failure
  | error e => .error (e.within outer)
  | fault f => .fault f

/-- An error of the classes that report a schema of the wrong shape. -/
def isDefinition : Failure → Bool
  | error e =>
    match e.kind with
    | .definition | .malformedField | .missingModifier => true
    | _ => false
  | fault _ => false

def isConfiguration (f : Failure) : Bool :=
  f.isDefinition ||
    match f with
    | error e => e.kind == .configuration
    | fault _ => false

end Failure

abbrev Outcome (α : Type) : Type := Except Failure α

namespace Outcome

variable {α : Type}

def ofFault : Except Fault α → Outcome α
  | .ok a => .ok a
  | .error f => .error (.fault f)

def raise (p : Problem) : Outcome α := .error (.of p)

def within (outer : Place) (x : Outcome α) : Outcome α :=
  x.mapError (Failure.within outer)

end Outcome
end XmlHarvest
