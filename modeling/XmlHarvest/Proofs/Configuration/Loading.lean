import XmlHarvest.Proofs.Configuration
import XmlHarvest.Proofs.Files.Reading
import XmlHarvest.Proofs.Json.Documents
import XmlHarvest.Proofs.Schema.Blame

/-! # What a load fails with

A load reports what is wrong with a path, with a file, or with the schema in it.  What it
does not report are paths of which the system does not tell whether they lead anywhere,
bytes that are no text, scalars that have no value, and integers too long to be shown in a
report. -/
set_option autoImplicit false

namespace XmlHarvest

variable {sections : Sections} {data : Value} {failure : Failure}

/-- The faults of the file at `p` that a load does not report. -/
inductive Surroundings.Escapes (s : Surroundings) (p : FilePath) : Fault → Prop
  /-- It cannot be told whether there is a file, as when a directory above it cannot be
  searched. -/
  | unknown {problem : FileProblem} (looked : s.files.look p = .error problem)
      (unsure : problem.isAbsence = false) : Escapes s p (.file problem p.text)
  | jsonBytes {bytes : List UInt8} {refusal : Text.Utf8.Refusal}
      (found : s.files.read p = .ok bytes) (suffix : SchemaFormat.ofSuffix? p.suffix = some .json)
      (refused : Text.Utf8.decode bytes = .error refusal) : Escapes s p (.decoding refusal)
  | yamlBytes {bytes : List UInt8} {refusal : Text.Utf8.Refusal}
      (found : s.files.read p = .ok bytes) (suffix : SchemaFormat.ofSuffix? p.suffix = some .yaml)
      (refused : Text.Utf8.decodeStream bytes = .error refusal) : Escapes s p (.decoding refusal)
  /-- The text is JSON up to an integer with too many digits. -/
  | jsonNumeral {bytes : List UInt8} {cs : List Char} {digits : Nat}
      (found : s.files.read p = .ok bytes) (suffix : SchemaFormat.ofSuffix? p.suffix = some .json)
      (decoded : Text.Utf8.decode bytes = .ok cs) (long : digitLimit < digits)
      (refused : Json.read (.ofChars (Text.Utf8.universalLines cs)) =
        .error (.number (.longNumeral digits))) :
      Escapes s p (.longNumeral digits)
  /-- Something in the text has the form of a value but no value. -/
  | yamlValue {bytes : List UInt8} {cs : List Char} {inner fault : Fault}
      (found : s.files.read p = .ok bytes) (suffix : SchemaFormat.ofSuffix? p.suffix = some .yaml)
      (decoded : Text.Utf8.decodeStream bytes = .ok cs)
      (refused : s.yaml (.ofChars (Text.Utf8.universalLines cs)) = .error (.fault inner))
      (bare : inner.systemText? = .error fault) : Escapes s p fault
  /-- An integer in the document is too long to be shown in a report. -/
  | building {v : Value} (read : SchemaFile.read s.yaml s.files p = .ok v) (long : ¬ v.Writable)
      (refused : Schema.read v = .error (.fault .longInteger)) : Escapes s p .longInteger

namespace SchemaFile

variable {yaml : Yaml.Reader} {files : FileTable} {p : FilePath} {bytes : List UInt8}
  {fault : Fault}

theorem failed_eq_error {path : Text} {e : Error} (h : failed path fault = .error (.error e)) :
    (Failure.error e).isConfiguration = true := by
  unfold failed at h
  split at h
  · cases h
    rfl
  · cases h

theorem read_eq_error {e : Error} (h : read yaml files p = .error (.error e)) :
    (Failure.error e).isConfiguration = true := by
  rw [read] at h
  rcases (Outcome.bind_eq_error _ _ _).mp h with hexists | ⟨found, -, h⟩
  · obtain ⟨fault, hfault, -⟩ := Outcome.ofFault_eq_error.mp hexists
    cases hfault
  split at h
  · cases h
    rfl
  split at h
  · cases h
    rfl
  split at h
  · exact failed_eq_error h
  · split at h
    · cases h
    · cases h
      rfl
    · exact failed_eq_error h

end SchemaFile

namespace Surroundings

variable {s : Surroundings} {p : FilePath} {fault : Fault}

end Surroundings

/-- A directory with a directory that cannot be searched. -/
def locked : Surroundings where
  files := ⟨["w"], [(["w"], .directory),
    (["w", "d"], .closedDirectory (some .noAccess) .noAccess)]⟩

example : (shelfConfiguration.load locked (some "d/a.json")).1 =
    .error (.fault (.file (.system .noAccess) "/w/d/a.json")) := by rfl

end XmlHarvest
