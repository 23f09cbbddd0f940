import XmlHarvest.Defaults
import XmlHarvest.Error
import XmlHarvest.Files.FilePath
import XmlHarvest.Text.Case

/-! # Settings

What the environment decides: the directory that paths start from, the schema
to use, the log level and the indentation of the output. -/
set_option autoImplicit false

namespace XmlHarvest

structure Environment where
  configPath : Option Text := none
  schemaPath : Option Text := none
  logLevel : Option Text := none
  jsonIndent : Option Text := none
  deriving DecidableEq, Repr

structure Settings where
  /-- The directory that relative paths start from. -/
  base : FilePath
  schemaPath : Option Text
  logLevel : Text
  indent : Int
  deriving DecidableEq, Repr

namespace Settings

def readIndent : Option Text → Outcome Int
  | none => .ok Defaults.indent
  | some raw =>
    match readInteger raw with
    | .ok i => .ok i
    | .error _ => .raise (.configuration (.indent raw))

def environmentBase (workingDirectory : FilePath) (e : Environment) : FilePath :=
  (e.configPath.map FilePath.parse).getD workingDirectory

def withBase (base : FilePath) (e : Environment) : Outcome Settings := do
  .ok {
    base := base
    schemaPath := e.schemaPath
    logLevel := Text.upper (e.logLevel.getD Defaults.logLevel.name)
    indent := ← readIndent e.jsonIndent }

/-- The settings of an environment.  A base that is missing or empty is taken
from the environment. -/
def read (workingDirectory : FilePath) (e : Environment) (base : Option Text) :
    Outcome Settings :=
  match base with
  | none | some "" => withBase (environmentBase workingDirectory e) e
  | some path => withBase (.parse path) e

end Settings
end XmlHarvest
