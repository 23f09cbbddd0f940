import XmlHarvest.Fault
import XmlHarvest.Files.FilePath

/-! # Tables of files

The files and directories there are, each under the names that lead to it from
the root.  A path is followed name by name; every name but the last has to lead
to a directory. -/
set_option autoImplicit false

namespace XmlHarvest

inductive FileEntry where
  | file (bytes : List UInt8)
  | directory
  /-- A file that cannot be opened. -/
  | closedFile (opening : SystemProblem)
  /-- A directory in which nothing can be looked up, if there is a problem
  `search`. -/
  | closedDirectory (search : Option SystemProblem) (opening : SystemProblem)
  /-- What cannot be looked at, such as a link that leads to itself. -/
  | unfollowed (problem : SystemProblem)
  deriving DecidableEq, Repr

def FileEntry.search : FileEntry → Except SystemProblem Unit
  | directory | closedDirectory none _ => .ok ()
  | file _ | closedFile _ => .error .noDirectory
  | closedDirectory (some p) _ => .error p
  | unfollowed p => .error p

def FileEntry.content : FileEntry → Except SystemProblem (List UInt8)
  | file bytes => .ok bytes
  | directory => .error .isDirectory
  | closedFile p | closedDirectory _ p | unfollowed p => .error p

structure FileTable where
  workingDirectory : List Text
  entries : List (List Text × FileEntry)
  deriving Repr

namespace FileTable

def entry? (t : FileTable) : List Text → Option FileEntry
  | [] => some .directory
  | names => t.entries.lookup names

def step (place : List Text) (name : Text) : List Text :=
  if name == ".." then place.dropLast else place ++ [name]

def isLongName (name : Text) : Bool := 255 < (name.flatMap Text.Utf8.nameBytes).length

def walk (t : FileTable) (place : List Text) :
    List Text → Except SystemProblem (List Text × FileEntry)
  | [] =>
    match t.entry? place with
    | some (.unfollowed p) => .error p
    | some e => .ok (place, e)
    | none => .error .noEntry
  | name :: rest =>
    match t.entry? place with
    | none => .error .noEntry
    | some e =>
      match e.search with
      | .error p => .error p
      | .ok () => if isLongName name then .error .longName else t.walk (step place name) rest

def start (t : FileTable) (p : FilePath) : List Text :=
  if p.isAbsolute then [] else t.workingDirectory

def look (t : FileTable) (p : FilePath) : Except FileProblem (List Text × FileEntry) :=
  match Text.Utf8.nameProblem? p.text with
  | some surrogates => .error (.unencodable surrogates)
  | none =>
    if p.text.contains '\x00' then .error .zeroCharacter
    else if 4096 ≤ (p.text.flatMap Text.Utf8.nameBytes).length then .error (.system .longName)
    else (t.walk (t.start p) p.names).mapError .system

/-- Whether a path leads to anything.  A problem that does not mean absence
leaves that open. -/
def exists? (t : FileTable) (p : FilePath) : Except Fault Bool :=
  match t.look p with
  | .ok _ => .ok true
  | .error problem =>
    if problem.isAbsence then .ok false else .error (.file problem p.text)

def read (t : FileTable) (p : FilePath) : Except Fault (List UInt8) :=
  match t.look p with
  | .ok (_, e) => e.content.mapError fun problem => .file (.system problem) p.text
  | .error problem => .error (.file problem p.text)

def readText (t : FileTable) (p : FilePath) : Except Fault (List Char) := do
  let bytes ← t.read p
  match Text.Utf8.decode bytes with
  | .ok cs => .ok (Text.Utf8.universalLines cs)
  | .error refusal => .error (.decoding refusal)

def put (t : FileTable) (place : List Text) (e : FileEntry) : FileTable :=
  { t with entries := (place, e) :: t.entries.filter fun (other, _) => other != place }

def above (place : List Text) : List (List Text) :=
  (List.range place.length).map place.take

/-- Makes a directory of every place above `place` at which there is nothing. -/
def makeAbove (t : FileTable) (place : List Text) : FileTable :=
  (above place).foldl (fun t a => if (t.entry? a).isSome then t else t.put a .directory) t

def add (t : FileTable) (place : List Text) (e : FileEntry) : FileTable :=
  (t.makeAbove place).put place e

def empty (workingDirectory : List Text) : FileTable :=
  add ⟨workingDirectory, []⟩ workingDirectory .directory

/-- The place that a path names, whatever there is. -/
def placeOf (t : FileTable) (p : FilePath) : List Text :=
  p.names.foldl step (t.start p)

def write (t : FileTable) (p : FilePath) (e : FileEntry) : Except Fault FileTable :=
  let place := t.placeOf p
  let blocked := (above place).any fun a =>
    match t.entry? a with
    | some found => !found.search.isOk
    | none => false
  if blocked then .error (.file (.system .noDirectory) p.text)
  else
    match t.entry? place, e with
    | some .directory, .file _ => .error (.file (.system .isDirectory) p.text)
    | some .directory, .directory => .ok t
    | _, _ => .ok (t.add place e)

def delete (t : FileTable) (p : FilePath) : Except Fault FileTable :=
  match t.look p with
  | .ok (place, .file _) =>
    .ok { t with entries := t.entries.filter fun (other, _) => other != place }
  | .ok _ => .error (.file (.system .isDirectory) p.text)
  | .error problem => .error (.file problem p.text)

def here (t : FileTable) : FilePath := .parse (FilePath.absolute t.workingDirectory).text

end FileTable
end XmlHarvest
