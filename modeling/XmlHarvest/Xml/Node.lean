import XmlHarvest.Text.Blank

/-! # Document trees

An element has a tag and, in document order, its texts, child elements,
comments, processing instructions and references to entities that were not
expanded.  Extraction sees two things of an element: its child elements, and
its own text, which is the trimmed concatenation of the texts directly under
it. -/
set_option autoImplicit false

namespace XmlHarvest.Xml

inductive Node where
  | text (s : Text)
  | element (tag : Text) (children : List Node)
  | comment (s : Text)
  | instruction (target data : Text)
  | entity (name : Text)
  deriving Repr, Inhabited

mutual

def Node.decEq : (a b : Node) → Decidable (a = b)
  | .text s, .text t => decidable_of_iff (s = t) (by simp)
  | .element s as, .element t bs =>
    match (inferInstance : Decidable (s = t)), Node.decEqList as bs with
    | isTrue hs, isTrue has => isTrue (by rw [hs, has])
    | isFalse hs, _ => isFalse fun h => hs (Node.element.inj h).1
    | _, isFalse has => isFalse fun h => has (Node.element.inj h).2
  | .comment s, .comment t => decidable_of_iff (s = t) (by simp)
  | .instruction s d, .instruction t d' => decidable_of_iff (s = t ∧ d = d') (by simp)
  | .entity s, .entity t => decidable_of_iff (s = t) (by simp)
  | .text _, .element _ _ | .text _, .comment _ | .text _, .instruction _ _ | .text _, .entity _
  | .element _ _, .text _ | .element _ _, .comment _ | .element _ _, .instruction _ _
  | .element _ _, .entity _ | .comment _, .text _ | .comment _, .element _ _
  | .comment _, .instruction _ _ | .comment _, .entity _ | .instruction _ _, .text _
  | .instruction _ _, .element _ _ | .instruction _ _, .comment _ | .instruction _ _, .entity _
  | .entity _, .text _ | .entity _, .element _ _ | .entity _, .comment _
  | .entity _, .instruction _ _ => isFalse nofun

def Node.decEqList : (as bs : List Node) → Decidable (as = bs)
  | [], [] => isTrue rfl
  | [], _ :: _ | _ :: _, [] => isFalse nofun
  | a :: as, b :: bs =>
    match Node.decEq a b, Node.decEqList as bs with
    | isTrue h, isTrue hs => isTrue (by rw [h, hs])
    | isFalse h, _ => isFalse fun heq => h (List.cons.inj heq).1
    | _, isFalse hs => isFalse fun heq => hs (List.cons.inj heq).2

end

instance : DecidableEq Node := Node.decEq

structure Element where
  tag : Text
  children : List Node
  deriving DecidableEq, Repr, Inhabited

namespace Node

def element? : Node → Option Element
  | element tag children => some ⟨tag, children⟩
  | _ => none

def ownText : Node → Text
  | text s => s
  | _ => ""

end Node

namespace Element

def elements (e : Element) : List Element :=
  e.children.filterMap Node.element?

def text (e : Element) : Text :=
  Text.trim (e.children.flatMap Node.ownText)

def childrenTagged (e : Element) (tag : Text) : List Element :=
  e.elements.filter fun c => c.tag == tag

def child? (e : Element) (tag : Text) : Option Element :=
  e.elements.find? fun c => c.tag == tag

end Element

/-! ## The other form of a tree

A parser may leave out comments and instructions and put what an entity stands
for in place of its references.  Texts that follow one another are then one. -/

mutual

/-- A node with `expansion name` in place of each reference to the entity
`name` under it. -/
def Node.expanded (expansion : Text → List Node) : Node → List Node
  | .element tag children => [.element tag (expandedNodes expansion children)]
  | .entity name => expansion name
  | other => [other]

def expandedNodes (expansion : Text → List Node) : List Node → List Node
  | [] => []
  | n :: rest => Node.expanded expansion n ++ expandedNodes expansion rest

end

def Element.expanded (expansion : Text → List Node) (e : Element) : Element :=
  ⟨e.tag, expandedNodes expansion e.children⟩

/-- Texts that follow one another become one; the texts in `pending` come
first. -/
def flushText (pending : Text) (rest : List Node) : List Node :=
  if pending.isEmpty then rest else .text pending :: rest

mutual

/-- A node with only elements and texts under it; the texts on both sides of
anything else run together. -/
def Node.plain : Node → Node
  | .element tag children => .element tag (plainNodes [] children)
  | other => other

def plainNodes (pending : Text) : List Node → List Node
  | [] => flushText pending []
  | .text s :: rest => plainNodes (pending ++ s) rest
  | .comment _ :: rest => plainNodes pending rest
  | .instruction _ _ :: rest => plainNodes pending rest
  | .entity _ :: rest => plainNodes pending rest
  | .element tag children :: rest =>
    flushText pending (Node.plain (.element tag children) :: plainNodes [] rest)

end

def Element.plain (e : Element) : Element := ⟨e.tag, plainNodes [] e.children⟩

end XmlHarvest.Xml
