import XmlHarvest.Session

/-! # Batches

A batch runs a session over a list of named documents.  A document that fails
is recorded with the stage at which it failed, and the batch goes on. -/
set_option autoImplicit false

namespace XmlHarvest

inductive Stage where
  | validation
  | parsing
  | extraction
  deriving DecidableEq, Repr

def Stage.name : Stage → Text
  | validation => "validation"
  | parsing => "parsing"
  | extraction => "extraction"

structure FailedDocument where
  document : Text
  stage : Stage
  error : Text
  deriving DecidableEq, Repr

def FailedDocument.summary (f : FailedDocument) : Text := f.document ++ ": " ++ f.error

def FailedDocument.logLine (f : FailedDocument) : Text :=
  "Document " ++ f.document ++ ": " ++ f.stage.name ++ " failed: " ++ f.error

structure BatchResult where
  processed : Nat := 0
  successful : Nat := 0
  failed : Nat := 0
  errors : List Text := []
  results : List (Text × Value) := []
  failures : List FailedDocument := []

namespace BatchResult

def recordFailure (r : BatchResult) (f : FailedDocument) : BatchResult :=
  { r with processed := r.processed + 1, failed := r.failed + 1,
           errors := r.errors ++ [f.summary], failures := r.failures ++ [f] }

/-- Records the output of a document; of several of one name the last
counts. -/
def recordSuccess (r : BatchResult) (id : Text) (v : Value) : BatchResult :=
  { r with processed := r.processed + 1, successful := r.successful + 1,
           results := Ordered.put id v r.results }

end BatchResult

def successRate (processed successful : Int) : Except Fault Binary64 :=
  if processed == 0 then .ok .zero
  else
    match Binary64.quotient? successful processed with
    | some share => .ok (share.times 100)
    | none => .error .integerQuotientBeyondFloat

namespace Session

def invalidMessage : Text := "XML is empty or not well-formed"

def failedStage (e : Error) : Stage :=
  if e.kind == .parsing then .parsing else .extraction

/-- Runs one document of a batch.  A bare fault ends the batch. -/
def runDocument (s : Session) (r : BatchResult) (id : Text) (text : Option Text) :
    Outcome BatchResult × Session :=
  match s.validate text with
  | (.error f, s) => (.error f, s)
  | (.ok false, s) => (.ok (r.recordFailure ⟨id, .validation, invalidMessage⟩), s)
  | (.ok true, s) =>
    match s.parse text (some id) with
    | (.ok v, s) => (.ok (r.recordSuccess id v), s)
    | (.error (.error e), s) => (.ok (r.recordFailure ⟨id, failedStage e, e.message⟩), s)
    | (.error (.fault f), s) => (.error (.fault f), s)

def runFrom (s : Session) (r : BatchResult) :
    List (Text × Option Text) → Outcome BatchResult × Session
  | [] => (.ok r, s)
  | (id, text) :: rest =>
    match s.runDocument r id text with
    | (.ok r, s) => runFrom s r rest
    | (.error e, s) => (.error e, s)

def run (s : Session) (documents : List (Text × Option Text)) :
    Outcome BatchResult × Session :=
  s.runFrom {} documents

end Session
end XmlHarvest
