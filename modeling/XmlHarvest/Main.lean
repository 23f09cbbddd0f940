import Std.Time.Format
import XmlHarvest.CommandLine.Report
import XmlHarvest.Modifier.Sample

/-! # The program

Looks at the files and the environment, runs the command line, and prints what
the run leaves behind. -/
set_option autoImplicit false

namespace XmlHarvest.Program

def importer : Importer := Sample.importer "samples"

def usage : String :=
  "usage: xml_data_extractor [-h] [--modifiers MODIFIERS] [--indent INDENT]\n" ++
    "                          [--log-level LEVEL] schema documents [documents ...]\n"

/-- A text as it is shown; a surrogate is shown as its escape. -/
def shown (t : Text) : String :=
  String.ofList (t.flatMap fun c => match c with
    | .char c => [c]
    | .surrogate n => '\\' :: 'u' :: Nat.toDigits 16 (0xD800 + n))

/-- What `look` gives, or the refusal of access. -/
def orRefusal (look : IO FileEntry) : IO (Option FileEntry) := do
  try
    return some (← look)
  catch
    | .permissionDenied _ number reason => return some (.closedFile ⟨number.toNat, reason⟩)
    | _ => return none

def fileAt? (path : String) : IO (Option FileEntry) :=
  orRefusal do return .file (← IO.FS.readBinFile path).toList

/-- The directory at a path.  Whether one that does not open can be searched
shows with a name that is not there. -/
def directoryAt? (path : String) : IO (Option FileEntry) := do
  match ← orRefusal (do let _ ← IO.FS.Handle.mk (path ++ "/.") .read; return .directory) with
  | some (.closedFile opening) =>
    match ← fileAt? (path ++ "/./\x01") with
    | some (.closedFile search) => return some (.closedDirectory (some search) opening)
    | _ => return some (.closedDirectory none opening)
  | found => return found

def addPath (t : FileTable) (p : FilePath) : IO FileTable := do
  let mut t := t
  for n in List.range (p.names.length + 1) do
    let above : FilePath := ⟨p.root, p.names.take n⟩
    if let some e ← directoryAt? (shown above.text) then t := t.put (t.placeOf above) e
  if (t.entry? (t.placeOf p)).isSome then return t
  match ← fileAt? (shown p.text) with
  | some e => return t.put (t.placeOf p) e
  | none => return t

def setting? (name : String) : IO (Option Text) := do
  return (← IO.getEnv ("XML_DATA_EXTRACTOR_" ++ name)).map .ofString

def readEnvironment : IO Environment := do
  return {
    configPath := ← setting? "CONFIG_PATH"
    schemaPath := ← setting? "SCHEMA_PATH"
    logLevel := ← setting? "LOG_LEVEL"
    jsonIndent := ← setting? "JSON_INDENT" }

def lookAround (args : List String) : IO Surroundings := do
  let here : FilePath := .parse (.ofString (← IO.currentDir).toString)
  let environment ← readEnvironment
  let base := Settings.environmentBase here environment
  let mut files := FileTable.empty here.names
  for arg in args do
    let p : FilePath := .parse (.ofString arg)
    files ← addPath files p
    files ← addPath files (base.resolve p)
  return { files := files, environment := environment }

def now : IO Text := do
  return .ofString ((← Std.Time.PlainDateTime.now).format "uuuu-MM-dd HH:mm:ss,SSS")

def print (r : Report) : IO UInt32 := do
  IO.eprint (shown r.complaint)
  for e in r.log do
    IO.eprint (shown (e.line (← now)))
  IO.print (shown r.output)
  match r.ending with
  | .code n => return n.toUInt32
  | .refused .help => IO.print usage; return 0
  | .refused .invalid => IO.eprint usage; return 2

end XmlHarvest.Program

open XmlHarvest in
def main (args : List String) : IO UInt32 := do
  match CommandLine.run Program.importer (← Program.lookAround args) (args.map Text.ofString) with
  | .ok r => Program.print r
  | .error f => IO.eprintln (Program.shown f.message); return 1
