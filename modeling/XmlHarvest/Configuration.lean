import XmlHarvest.Configuration.Settings
import XmlHarvest.Schema.File
import XmlHarvest.Schema.Reading

/-! # Configurations

A configuration holds the settings and the schemas loaded so far, each under
the path of its file.  A schema that is held is not read again until the
configuration is cleared. -/
set_option autoImplicit false

namespace XmlHarvest

/-- Prints a text in UTF-8, which has no bytes for surrogates. -/
def printBytes (text : Text) : Except Fault Unit :=
  ((Text.Utf8.encode text).mapError .encoding).map fun _ => ()

/-- What a program finds around it: the files, the environment, how YAML is read
and which texts can be printed. -/
structure Surroundings where
  files : FileTable
  environment : Environment := {}
  yaml : Yaml.Reader := Yaml.read
  print : Text → Except Fault Unit := printBytes

structure Configuration where
  settings : Settings
  schemas : List (Text × Schema) := []

namespace Configuration

def start (s : Surroundings) (base : Option Text) : Outcome Configuration := do
  .ok { settings := ← Settings.read s.files.here s.environment base }

def orStart (current : Option Configuration) (s : Surroundings) (base : Option Text) :
    Outcome Configuration :=
  match current with
  | some c => .ok c
  | none => start s base

def resolve (c : Configuration) (path : Text) : FilePath :=
  c.settings.base.resolve (.parse path)

def readDocument (c : Configuration) (s : Surroundings) (path : Text) : Outcome Value :=
  SchemaFile.read s.yaml s.files (c.resolve path)

def schemaPath? (c : Configuration) (path : Option Text) : Option Text :=
  (path <|> c.settings.schemaPath).filter (!·.isEmpty)

def key (c : Configuration) (path : Text) : Text := (c.resolve path).text

/-- The schema in a file, without looking at those held. -/
def readSchema (c : Configuration) (s : Surroundings) (path : Text) : Outcome Schema := do
  Schema.read (← c.readDocument s path)

/-- The schema at a path.  It is held from then on. -/
def load (c : Configuration) (s : Surroundings) (path : Option Text) :
    Outcome Schema × Configuration :=
  match c.schemaPath? path with
  | none => (.raise (.configuration .noSchemaPath), c)
  | some path =>
    match Ordered.get? c.schemas (c.key path) with
    | some schema => (.ok schema, c)
    | none =>
      match c.readSchema s path with
      | .ok schema => (.ok schema, { c with schemas := Ordered.put (c.key path) schema c.schemas })
      | .error e => (.error e, c)

def missing (s : Surroundings) (p : FilePath) (finding : Text → Finding) :
    Outcome (List Finding) := do
  let found ← Outcome.ofFault (s.files.exists? p)
  .ok (if found then [] else [finding p.text])

def findings (c : Configuration) (s : Surroundings) : Outcome (List Finding) := do
  let base ← missing s c.settings.base .baseMissing
  let schema ← match c.settings.schemaPath.filter (!·.isEmpty) with
    | some path => missing s (c.resolve path) .schemaMissing
    | none => .ok []
  let level := if (LogLevel.ofName? c.settings.logLevel).isSome then []
    else [Finding.unknownLevel c.settings.logLevel]
  let indent := if c.settings.indent < 0 then [Finding.negativeIndent] else []
  .ok (base ++ schema ++ level ++ indent)

def validate (c : Configuration) (s : Surroundings) : Outcome Unit := do
  match ← c.findings s with
  | [] => .ok ()
  | found => .raise (.configuration (.invalid found))

def held (c : Configuration) : List Text :=
  (Ordered.keys c.schemas).mergeSort fun a b => !decide (b < a)

def clear (c : Configuration) : Configuration := { c with schemas := [] }

/-- Reads the settings again, with the same base, and forgets the schemas. -/
def reload (c : Configuration) (s : Surroundings) : Outcome Configuration := do
  .ok { settings := ← Settings.withBase c.settings.base s.environment }

end Configuration
end XmlHarvest
