import XmlHarvest.Log
import XmlHarvest.Schema.Reading
import XmlHarvest.Text.Quoted

/-! # Defaults

What holds where neither the environment nor the command line says otherwise,
with a table of all defaults in the order of their names. -/
set_option autoImplicit false

namespace XmlHarvest

inductive Default where
  | number (n : Nat)
  | text (s : Text)
  | choices (texts : List Text)
  deriving DecidableEq, Repr

namespace Default

def value : Default → Value
  | number n => .int n
  | text s => .str s
  | choices texts => .list (texts.map .str)

def shown : Default → Text
  | number n => toString n
  | text s => s
  | choices texts => "(" ++ Text.joinWith ", " (texts.map Text.quote) ++ ")"

end Default

namespace Defaults

def indent : Nat := 2

def logLevel : LogLevel := .warning

def schemaSuffixes : List Text := [".yaml", ".yml", ".json"]

def logFormat : Text := "%(asctime)s - %(name)s - %(levelname)s - %(message)s"

def table : List (Text × Default) :=
  let sections : Sections := {}
  [("JSON_INDENT", .number indent),
   ("LOG_FORMAT", .text logFormat),
   ("LOG_LEVEL", .text logLevel.name),
   ("MAPPERS_SECTION", .text sections.mappers),
   ("SCHEMA_FILE_SUFFIXES", .choices schemaSuffixes),
   ("SCHEMA_SECTION", .text sections.schemas)]

def value : Value := .record (table.map fun (name, d) => (name, d.value))

def summary : Text :=
  Text.joinWith "\n" ("Extraction Configuration Defaults:" ::
    table.map fun (name, d) => "  " ++ name ++ ": " ++ d.shown)

end Defaults
end XmlHarvest
