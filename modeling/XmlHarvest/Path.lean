import XmlHarvest.Error
import XmlHarvest.Text.Blank
import XmlHarvest.Text.Split
import XmlHarvest.Value.Text

/-! # Paths

A path names a descent through an element tree: one tag name for each level.
Its written form has a slash between each two names.  Only plain tag names are
admitted, so a written path has exactly one reading. -/
set_option autoImplicit false

namespace XmlHarvest

def isReservedInTag (c : CodePoint) : Bool :=
  ("@:[]*()/" : Text).contains c || Text.isBlank c

/-- A plain tag name: not empty, not a dot or two, without reserved
characters. -/
def isPlainTag (segment : Text) : Bool :=
  segment != "" && segment != "." && segment != ".." && !segment.any isReservedInTag

structure Path where
  segments : List Text
  nonempty : segments ≠ []
  plain : ∀ s ∈ segments, isPlainTag s = true
  deriving DecidableEq

inductive PathFault where
  | empty
  /-- The written form that has an empty segment. -/
  | emptySegment (written : Text)
  | notPlain (segment : Text)
  /-- The displayed form of a value that is no path. -/
  | notText (shown : Text)
  deriving DecidableEq, Repr

def PathFault.message : PathFault → Text
  | empty => "path cannot be empty"
  | emptySegment written => "path '" ++ written ++ "' contains an empty segment"
  | notPlain segment => "path segment '" ++ segment ++ "' is not a plain tag name"
  | notText shown => "path must be a non-empty string, got " ++ shown

namespace Path

def segmentFault? (written : Text) : List Text → Option PathFault
  | [] => none
  | s :: rest =>
    if s == "" then some (.emptySegment written)
    else if isPlainTag s then segmentFault? written rest
    else some (.notPlain s)

def written (segments : List Text) : Text :=
  Text.joinWith "/" segments

theorem plain_of_segmentFault? {w : Text} {segments : List Text}
    (h : segmentFault? w segments = none) : ∀ s ∈ segments, isPlainTag s = true := by
  induction segments with
  | nil => simp
  | cons t rest ih =>
    intro s hs
    unfold segmentFault? at h
    split at h
    · cases h
    · split at h
      · rename_i hp
        rcases List.mem_cons.mp hs with rfl | hs
        · exact hp
        · exact ih h s hs
      · cases h

def ofSegments (segments : List Text) : Except PathFault Path :=
  if h : segments = [] then .error .empty
  else
    match hf : segmentFault? (written segments) segments with
    | some fault => .error fault
    | none => .ok ⟨segments, h, plain_of_segmentFault? hf⟩

/-- The segments that a text writes: white space around it and slashes around
what is left do not count. -/
def segmentsOf (cs : Text) : List Text :=
  Text.splitOn (.char '/') (Text.stripOf (· == CodePoint.char '/') (Text.trim cs))

def parse (raw : Text) : Except PathFault Path :=
  if Text.isBlankText raw then .error (.notText (Text.quote raw))
  else ofSegments (segmentsOf raw)

def text (p : Path) : Text := written p.segments

def parent (p : Path) : List Text := p.segments.dropLast

def terminal (p : Path) : Text := p.segments.getLast p.nonempty

def lift {α : Type} : Except PathFault α → Outcome α
  | .ok a => .ok a
  | .error fault => .raise (.malformedField fault.message)

def ofValue : Value → Outcome Path
  | .scalar (.str raw) => lift (parse raw)
  | other => do
    let shown ← Outcome.ofFault other.display?
    lift (.error (.notText shown))

end Path
end XmlHarvest
