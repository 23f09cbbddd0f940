import XmlHarvest.CommandLine.Report
import XmlHarvest.Proofs.Configuration.Loading

/-! # What a run of the command line reads

Before anything is extracted the schema is loaded, the modifiers are found and all
documents are read, in this order.  Errors and failures of the system that are met there
are reported; other faults are not. -/
set_option autoImplicit false

namespace XmlHarvest

/-! ## Modifiers -/

namespace Importer

/-- A reference to `member` in the module of the full name `name`. -/
structure Seeks (reference name member : Text) : Prop where
  names : names reference = (name, member)
  nonempty : name ≠ []
  absolute : name.head? ≠ some (.char '.')

/-- What a reference leads to: the module itself, or what it has under a name. -/
inductive Leads (importer : Importer) (reference : Text) : Part → Prop
  | whole {name : Text} {m : ModifierModule} {part : Part} (seeks : Seeks reference name "")
      (imported : importer name = .ok m) (whole : m.whole = part) : Leads importer reference part
  | part {name member : Text} {m : ModifierModule} {part : Part}
      (seeks : Seeks reference name member) (imported : importer name = .ok m)
      (named : member ≠ []) (found : m.part member = .ok part) : Leads importer reference part

/-- The faults with which a reference can fail: the name of the module begins with a dot,
or there is a fault in the text of a failed import, or the module fails while it is
imported, while something is sought in it, or while a class in it is called. -/
inductive Fails (importer : Importer) (reference : Text) : Fault → Prop
  | relative {name member : Text} (names : names reference = (name, member))
      (dot : name.head? = some (.char '.')) : Fails importer reference (.relativeModule name)
  | wordless {name member : Text} {fault : Fault} (seeks : Seeks reference name member)
      (refused : importer name = .error (.refused (.error fault))) :
      Fails importer reference fault
  | importing {name member : Text} {fault : Fault} (seeks : Seeks reference name member)
      (raised : importer name = .error (.failure (.fault fault))) : Fails importer reference fault
  | reaching {name member : Text} {m : ModifierModule} {fault : Fault}
      (seeks : Seeks reference name member) (imported : importer name = .ok m)
      (named : member ≠ []) (raised : m.part member = .error (.failure (.fault fault))) :
      Fails importer reference fault
  | making {made : Outcome Supplier} {fault : Fault}
      (leads : importer.Leads reference (.maker made)) (raised : made = .error (.fault fault)) :
      Fails importer reference fault

variable {importer : Importer} {reference name member : Text} {m : ModifierModule}
  {part : Part} {fault : Fault}

end Importer

/-! ## Everything that is read -/

namespace CommandLine

variable {importer : Importer} {s : Surroundings} {c : Configuration} {o : Options}
  {job : Job} {fault inner : Fault}

/-- Schema and modifiers are there, and every document is read. -/
structure Prepared (importer : Importer) (s : Surroundings) (c : Configuration)
    (o : Options) (job : Job) : Prop where
  schema : (c.load s (some o.schema)).1 = .ok job.schema
  capability : capabilityOf importer o = .ok job.capability
  documents : List.Forall₂ (fun path d => path = d.1 ∧
    ∃ cs, s.files.readText (.parse path) = .ok cs ∧ .ofChars cs = d.2) o.documents job.documents
  debug : job.debug = (o.level == .debug)

theorem readDocument_eq_ok {path : Text} {d : Text × Text} :
    readDocument s path = .ok d ↔
      path = d.1 ∧ ∃ cs, s.files.readText (.parse path) = .ok cs ∧ .ofChars cs = d.2 := by
  obtain ⟨path', text⟩ := d
  rw [readDocument, Outcome.bind_eq_ok]
  simp [Outcome.ofFault_eq_ok, and_left_comm]

theorem prepare_eq_ok : prepare importer s c o = .ok job ↔ Prepared importer s c o job := by
  rw [prepare, Outcome.bind_eq_ok]
  constructor
  · intro h
    obtain ⟨schema, hschema, h⟩ := h
    obtain ⟨capability, hcapability, h⟩ := (Outcome.bind_eq_ok _ _ _).mp h
    obtain ⟨documents, hdocuments, hjob⟩ := (Outcome.bind_eq_ok _ _ _).mp h
    cases hjob
    rw [Outcome.mapM_eq_ok] at hdocuments
    exact ⟨hschema, hcapability, hdocuments.imp fun _ _ => readDocument_eq_ok.mp, rfl⟩
  · intro h
    refine ⟨job.schema, h.schema, (Outcome.bind_eq_ok _ _ _).mpr ⟨job.capability, h.capability,
      (Outcome.bind_eq_ok _ _ _).mpr ⟨job.documents, ?_, by rw [← h.debug]⟩⟩⟩
    rw [Outcome.mapM_eq_ok]
    exact h.documents.imp fun _ _ => readDocument_eq_ok.mpr

end CommandLine
end XmlHarvest
