import XmlHarvest.Batch
import XmlHarvest.CommandLine.Options
import XmlHarvest.Configuration
import XmlHarvest.Json.Printer
import XmlHarvest.Modifier.Reference

/-! # Runs of the command line

A run loads the schema and the modifiers, reads all documents, and extracts one
after the other.  Of one document it prints the output, of several an object
with the outputs of those that did not fail.  Nothing is extracted unless
everything could be read. -/
set_option autoImplicit false

namespace XmlHarvest

inductive Ending where
  | code (n : Nat)
  | refused (why : Refusal)
  deriving DecidableEq, Repr

structure Report where
  ending : Ending
  output : Text := ""
  /-- What is said on the error channel, apart from the log. -/
  complaint : Text := ""
  log : List LogEntry := []
  deriving DecidableEq, Repr

namespace CommandLine

structure Job where
  schema : Schema
  capability : Option Capability
  documents : List (Text × Text)
  /-- Whether the log shows all details. -/
  debug : Bool := false

def capabilityOf (importer : Importer) (o : Options) : Outcome (Option Capability) :=
  match o.modifiers.filter (!·.isEmpty) with
  | some reference => do
    let supplier ← importer.resolve reference
    .ok supplier.capability?
  | none => .ok none

def readDocument (s : Surroundings) (path : Text) : Outcome (Text × Text) := do
  let text ← Outcome.ofFault (s.files.readText (.parse path))
  .ok (path, .ofChars text)

def prepare (importer : Importer) (s : Surroundings) (c : Configuration) (o : Options) :
    Outcome Job := do
  let schema ← (c.load s (some o.schema)).1
  let capability ← capabilityOf importer o
  let documents ← o.documents.mapM (readDocument s)
  .ok ⟨schema, capability, documents, o.level == .debug⟩

def entry (level : LogLevel) (message : Text) : LogEntry := ⟨level, .commandLine, message⟩

/-- The report of a failure to prepare.  Only errors and failures of the system
are reported; other faults are not caught. -/
def unprepared (log : List LogEntry) : Failure → Outcome Report
  | .error e =>
    .ok { ending := .code 1,
          log := log ++ [entry .error ("Configuration failed: " ++ e.message)] }
  | .fault f =>
    match f.systemText? with
    | .ok text =>
      .ok { ending := .code 1,
            log := log ++ [entry .error ("Failed to read document: " ++ text)] }
    | .error fault => .error (.fault fault)

def countLine (r : BatchResult) : Except Fault Text := do
  let rate ← successRate r.processed r.successful
  .ok ("Extracted " ++ toString r.successful ++ "/" ++ toString r.processed ++ " document(s) (" ++
    rate.textOnePlace ++ "% success)")

/-- What is printed of a batch: nothing if its only document failed. -/
def outputOf (documents : List (Text × Text)) (r : BatchResult) : Option Value :=
  match documents with
  | [(path, _)] => Ordered.get? r.results path
  | _ => some (.record r.results)

def batchLog (documents : List (Text × Text)) (r : BatchResult) :
    Except Fault (List LogEntry) := do
  let failures := r.failures.map fun f => ⟨.error, .batch, f.logLine⟩
  match documents with
  | [_] => .ok failures
  | _ => .ok (failures ++ [entry .info (← countLine r)])

def written (print : Text → Except Fault Unit) (indent : Int) : Option Value → Outcome Text
  | none => .ok ""
  | some v => do
    let layout ← Outcome.ofFault (Json.Layout.ofIndent indent)
    let text ← Outcome.ofFault (Json.text layout v)
    Outcome.ofFault (print text)
    .ok (text ++ "\n")

def Job.session (job : Job) : Session := .start job.schema job.capability false job.debug

def runJob (print : Text → Except Fault Unit) (indent : Int) (log : List LogEntry) (job : Job) :
    Outcome Report := do
  let r ← (job.session.run (job.documents.map fun (path, text) => (path, some text))).1
  let entries ← Outcome.ofFault (batchLog job.documents r)
  let output ← written print indent (outputOf job.documents r)
  .ok { ending := .code (if r.failures.isEmpty then 0 else 1), output := output,
        log := log ++ entries }

def shownAt (level : LogLevel) (r : Report) : Report :=
  { r with log := r.log.filter fun e => level.shows e.level }

def runOptions (importer : Importer) (s : Surroundings) (c : Configuration)
    (o : Options) : Outcome Report :=
  let log := if o.level == .debug then [entry .info Defaults.summary] else []
  shownAt o.level <$>
    match prepare importer s c o with
    | .error f => unprepared log f
    | .ok job => runJob s.print o.indent log job

/-- The log level that holds without an option: that of the settings if there is
one of the name. -/
def defaultLevel (settings : Settings) : LogLevel :=
  (LogLevel.ofName? settings.logLevel).getD Defaults.logLevel

def run (importer : Importer) (s : Surroundings) (args : List Text) :
    Outcome Report :=
  match Configuration.start s none with
  | .error (.error e) =>
    .ok { ending := .code 1, complaint := "ERROR: " ++ e.message ++ "\n" }
  | .error (.fault f) => .error (.fault f)
  | .ok c =>
    match readOptions c.settings.indent (defaultLevel c.settings) args with
    | .error why => .ok { ending := .refused why }
    | .ok o => runOptions importer s c o

end CommandLine
end XmlHarvest
