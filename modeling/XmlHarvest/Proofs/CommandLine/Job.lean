import Mathlib.Data.Nat.Log
import XmlHarvest.CommandLine.Report
import XmlHarvest.Proofs.Batch
import XmlHarvest.Proofs.Escape

/-! # What is extracted in a run of the command line

A job runs its documents as one batch.  What comes of a document is what comes of it alone,
so what a run prints is made of the documents one by one; and the numbers of the batch can
always be told. -/
set_option autoImplicit false

namespace XmlHarvest

/-! ## The share of documents that were extracted -/

section Rate

end Rate

/-! ## Batches that return -/

namespace Session

variable {s : Session} {document : Text × Option Text}

end Session

namespace CommandLine

/-! ## Jobs -/

namespace Job

/-- What is extracted from a document, whatever the other documents are. -/
def output? (job : Job) (d : Text × Text) : Option Value :=
  match (job.session.validate (some d.2)).1 with
  | .ok true => (job.session.parse (some d.2) (some d.1)).1.toOption
  | _ => none

variable {job : Job} {d : Text × Text} {entry : Text × Verdict}
  {entries : List (Text × Verdict)} {ds : List (Text × Text)}

def texts (ds : List (Text × Text)) : List (Text × Option Text) :=
  ds.map fun d => (d.1, some d.2)

section Results

variable {r : BatchResult} (h : (job.session.run (texts job.documents)).1 = .ok r)

include h

end Results

end Job

end CommandLine
end XmlHarvest
