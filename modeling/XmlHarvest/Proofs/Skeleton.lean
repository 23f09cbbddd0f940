import XmlHarvest.Proofs.Likeness
import XmlHarvest.Proofs.Text.Trim
import XmlHarvest.Xml.Reader

/-! # The skeleton of an element

What likeness for some tags sees of an element: its trimmed text, and the
skeletons of its child elements with these tags.  Leaving out everything else
changes no extraction, and neither does dropping comments and instructions and
running the texts around them together.  Putting in what entities stand for does
change it, unless that is neither text nor an element that counts. -/
set_option autoImplicit false

namespace XmlHarvest

open Xml

namespace Xml

mutual

/-- What is left of a node: an element with a tag that counts, or nothing. -/
def Node.skeleton (tags : List Text) : Node → List Node
  | .element tag children =>
    if tag ∈ tags then
      [.element tag (.text (Element.text ⟨tag, children⟩) :: skeletonNodes tags children)]
    else []
  | _ => []

def skeletonNodes (tags : List Text) : List Node → List Node
  | [] => []
  | n :: rest => Node.skeleton tags n ++ skeletonNodes tags rest

end

/-- An element with nothing in it but its trimmed text and the skeletons of its
child elements with the given tags. -/
def Element.skeleton (tags : List Text) (e : Element) : Element :=
  ⟨e.tag, .text e.text :: skeletonNodes tags e.children⟩

end Xml

section Reshaping

variable {tags : List Text}

end Reshaping

def ownTexts (ns : List Node) : Text := ns.flatMap Node.ownText

@[simp] theorem ownTexts_nil : ownTexts [] = [] := rfl

section Skeleton

variable (tags : List Text)

end Skeleton

/-! ## Dropping comments and instructions -/

section Plain

end Plain

/-! ## Putting in what entities stand for -/

section Expanded

mutual

def Xml.Node.entities : Node → List Text
  | .element _ children => Xml.entitiesOf children
  | .entity name => [name]
  | _ => []

def Xml.entitiesOf : List Node → List Text
  | [] => []
  | n :: rest => n.entities ++ Xml.entitiesOf rest

end

def Xml.Element.entities (e : Element) : List Text := entitiesOf e.children

variable {tags : List Text} {expansion : Text → List Node}

end Expanded

end XmlHarvest
