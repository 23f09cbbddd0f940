import XmlHarvest.Proofs.CommandLine.Job
import XmlHarvest.Proofs.CommandLine.Preparation
import XmlHarvest.Proofs.Json.Bytes
import XmlHarvest.Proofs.Json.Printer

/-! # How a run of the command line ends

A run ends with a code, or with a fault that is not caught.  The code is zero exactly if
everything could be read and every document was extracted. -/
set_option autoImplicit false

namespace XmlHarvest.CommandLine

section Writing

variable {print : Text → Except Fault Unit} {indent : Int} {output : Option Value} {v : Value}

end Writing

variable {importer : Importer} {s : Surroundings} {c : Configuration} {o : Options}
  {job : Job} {fault : Fault} {failure : Failure} {report : Report}
  {print : Text → Except Fault Unit} {indent : Int} {log : List LogEntry}

theorem Prepared.unique {job' : Job} (h : Prepared importer s c o job)
    (h' : Prepared importer s c o job') : job' = job := by
  have hjob := prepare_eq_ok.mpr h
  rw [prepare_eq_ok.mpr h'] at hjob
  exact Except.ok.inj hjob

def nowhere : Importer := fun _ => .error (.refused (.ok "No module"))

end XmlHarvest.CommandLine
