import XmlHarvest.Proofs.Outcome
import XmlHarvest.Proofs.Text.Utf8
import XmlHarvest.Schema.File

/-! # What is read from files

A file that cannot be opened is told from one that can but holds no text, and from a path
that is no path.  A schema file is looked for first, so that only its content is left to
fail with a fault of another kind. -/
set_option autoImplicit false

namespace XmlHarvest

namespace FileTable

variable {t : FileTable} {p : FilePath} {fault : Fault}

end FileTable

namespace SchemaFile

variable {yaml : Yaml.Reader} {files : FileTable} {p : FilePath} {fault : Fault}
  {place : List Text} {e : FileEntry}

theorem read_of_problem {problem : FileProblem} (h : files.look p = .error problem) :
    read yaml files p = if problem.isAbsence then .raise (.configuration (.schemaMissing p.text))
      else .error (.fault (.file problem p.text)) := by
  simp only [read, FileTable.exists?, h]
  split <;> rfl

end SchemaFile
end XmlHarvest
