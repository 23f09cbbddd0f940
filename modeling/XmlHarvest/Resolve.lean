import XmlHarvest.Path
import XmlHarvest.Xml.Node

/-! # Resolving paths

A path is followed from an element by taking the first child element with the
next segment's tag.  It resolves to the element that it reaches, to that
element's text, or to all children of the last parent that have the last
segment's tag. -/
set_option autoImplicit false

namespace XmlHarvest

open Xml

/-- Follows tags by first matches; the failure is the first tag without a
match. -/
def descend (e : Element) : List Text → Except Text Element
  | [] => .ok e
  | tag :: rest =>
    match e.child? tag with
    | none => .error tag
    | some c => descend c rest

namespace Path

/-- Follows some of a path's segments; an error gives the whole path. -/
def follow (p : Path) (segments : List Text) (e : Element) : Outcome Element :=
  match descend e segments with
  | .ok target => .ok target
  | .error segment => .error (.error ⟨.pathNotFound segment, { path := some p.text }⟩)

def node (p : Path) (e : Element) : Outcome Element := p.follow p.segments e

def textAt (p : Path) (e : Element) : Outcome Text := Element.text <$> p.node e

/-- The elements that a path selects: none when only the last segment has no
match. -/
def nodes (p : Path) (e : Element) : Outcome (List Element) :=
  (fun parent => parent.childrenTagged p.terminal) <$> p.follow p.parent e

def textsAt (paths : List Path) (e : Element) : Outcome (List Text) :=
  paths.mapM fun p => p.textAt e

end Path
end XmlHarvest
