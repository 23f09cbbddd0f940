import XmlHarvest.Error
import XmlHarvest.Files.FileTable
import XmlHarvest.Json.Reader
import XmlHarvest.Text.Case
import XmlHarvest.Yaml.Reader

/-! # Schema files

A schema document is kept in a file in one of two formats, which the suffix of
the file's name tells. -/
set_option autoImplicit false

namespace XmlHarvest

inductive SchemaFormat where
  | yaml
  | json
  deriving DecidableEq, Repr

namespace SchemaFormat

def ofSuffix? (suffix : Text) : Option SchemaFormat :=
  let lower := Text.lower suffix
  if lower == ".yaml" || lower == ".yml" then some yaml
  else if lower == ".json" then some json
  else none

end SchemaFormat

namespace SchemaFile

inductive ReadFault where
  | malformed
  | fault (f : Fault)
  deriving DecidableEq, Repr

def ofJson : Json.ReadFault → ReadFault
  | .malformed => .malformed
  | .number f => .fault f

def ofYaml : Yaml.ReadFault → ReadFault
  | .malformed => .malformed
  | .fault f => .fault f

/-- The value that bytes of a format hold.  JSON is decoded as a whole, YAML as
it is read. -/
def decode (yaml : Yaml.Reader) (format : SchemaFormat) (bytes : List UInt8) :
    Except ReadFault Value :=
  let text := match format with
    | .json => Text.Utf8.decode bytes
    | .yaml => Text.Utf8.decodeStream bytes
  match text with
  | .error refusal => .error (.fault (.decoding refusal))
  | .ok cs =>
    let cs := Text.ofChars (Text.Utf8.universalLines cs)
    match format with
    | .json => (Json.read cs).mapError ofJson
    | .yaml => (yaml cs).mapError ofYaml

def failed (path : Text) (f : Fault) : Outcome Value :=
  match f.systemText? with
  | .ok detail => .raise (.configuration (.schemaUnreadable path detail))
  | .error fault => .error (.fault fault)

def read (yaml : Yaml.Reader) (files : FileTable) (p : FilePath) : Outcome Value := do
  let found ← Outcome.ofFault (files.exists? p)
  if !found then .raise (.configuration (.schemaMissing p.text))
  else
    match SchemaFormat.ofSuffix? p.suffix with
    | none => .raise (.configuration (.unsupportedFormat p.suffix))
    | some format =>
      match files.read p with
      | .error f => failed p.text f
      | .ok bytes =>
        match decode yaml format bytes with
        | .ok v => .ok v
        | .error .malformed => .raise (.configuration (.schemaMalformed p.text))
        | .error (.fault f) => failed p.text f

end SchemaFile
end XmlHarvest
