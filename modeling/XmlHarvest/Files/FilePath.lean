import XmlHarvest.Text.CodePoint
import XmlHarvest.Text.Split

/-! # File paths

A file path in a form without empty names and dots.  Two dots stay as they are:
what they lead to depends on the files. -/
set_option autoImplicit false

namespace XmlHarvest

/-- Where a path starts: at the working directory, at the root, or at the root
written with two slashes. -/
inductive PathRoot where
  | workingDirectory
  | slash
  | doubleSlash
  deriving DecidableEq, Repr

namespace PathRoot

def text : PathRoot → Text
  | workingDirectory => ""
  | slash => "/"
  | doubleSlash => "//"

def ofSlashes (n : Nat) : PathRoot :=
  match n with
  | 0 => workingDirectory
  | 2 => doubleSlash
  | _ => slash

end PathRoot

structure FilePath where
  root : PathRoot
  names : List Text
  deriving DecidableEq, Repr

namespace FilePath

def isStep (name : Text) : Bool := name != "" && name != "."

def parse (s : Text) : FilePath where
  root := .ofSlashes (s.takeWhile (· == CodePoint.char '/')).length
  names := (Text.splitOn (.char '/') s).filter isStep

def absolute (names : List Text) : FilePath := ⟨.slash, names⟩

def isAbsolute (p : FilePath) : Bool := p.root != .workingDirectory

def text (p : FilePath) : Text :=
  match p.root, p.names with
  | .workingDirectory, [] => "."
  | root, names => root.text ++ Text.joinWith "/" names

def resolve (base p : FilePath) : FilePath :=
  if p.isAbsolute then p else { base with names := base.names ++ p.names }

/-- The part of a name from its last dot on.  A dot at either end of the name
does not count. -/
def suffixOf (name : Text) : Text :=
  let ending := (name.reverse.takeWhile (· != CodePoint.char '.')).reverse
  if ending.isEmpty || name.length ≤ ending.length + 1 then "" else "." ++ ending

def suffix (p : FilePath) : Text := (p.names.getLast?.map suffixOf).getD ""

example : (parse "a//b/./../c").text = "a/b/../c" := by decide +kernel
example : (parse "///x").text = "/x" := by decide +kernel
example : (parse ".yml").suffix = "" := by decide +kernel

end FilePath
end XmlHarvest
