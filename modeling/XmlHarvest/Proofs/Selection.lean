import XmlHarvest.Proofs.Field
import XmlHarvest.Proofs.Likeness
import XmlHarvest.Proofs.Within

/-! # The element at a path and the elements that it selects

A path reaches one element and selects a list of them: the children of one parent
that have its last tag.  What it reaches is the first of those that it selects; when
it selects none, or stops on the way to the parent, it reaches none, and both report
the tag that is missing. -/
set_option autoImplicit false

namespace XmlHarvest

open Xml

def Path.missing (p : Path) (tag : Text) : Failure :=
  .error ⟨.pathNotFound tag, { path := some p.text }⟩

section Resolving

variable {e : Element} {p : Path}

/-- The tags of a path are those of its parent, with its last one after them. -/
theorem parent_append_terminal (p : Path) : p.parent ++ [p.terminal] = p.segments :=
  List.dropLast_append_getLast p.nonempty

/-- What a path reaches is the first element that it selects. -/
theorem node_eq_first_of_nodes : p.node e = p.nodes e >>= fun selected =>
    match selected with
    | [] => .error (p.missing p.terminal)
    | c :: _ => .ok c := by
  have hnode : p.node e = p.follow (p.parent ++ [p.terminal]) e := by
    rw [parent_append_terminal, Path.node]
  cases hparent : descend e p.parent with
  | error tag =>
    have hnodes : p.nodes e = .error (p.missing tag) := by
      rw [Path.nodes, Path.follow, hparent]
      rfl
    rw [hnode, hnodes, Path.follow, descend_append, hparent]
    rfl
  | ok parent =>
    have hnodes : p.nodes e = .ok (parent.childrenTagged p.terminal) := by
      rw [Path.nodes, Path.follow, hparent]
      rfl
    have hlast : descend e (p.parent ++ [p.terminal]) = descend parent [p.terminal] := by
      rw [descend_append, hparent]
      rfl
    rw [hnode, hnodes, Path.follow, hlast, descend, child?_eq_head?]
    cases parent.childrenTagged p.terminal with
    | nil => rfl
    | cons c more => rfl

theorem nodes_eq_error {failure : Failure} : p.nodes e = .error failure ↔
    ∃ tag, Stops e p.parent tag ∧ failure = p.missing tag := by
  rw [Path.nodes, Outcome.map_eq_error, follow_eq_error]
  rfl

end Resolving

/-- Following a path to one element and to all that it selects agree.  The path reaches
the first of the selected elements, whose text is the text at the path; if it selects
none, its last tag is missing; if it stops before, the same tag is missing for both.  The
selected elements are all children with the last tag of the element that the tags before
it lead to by first matches. -/
theorem node_and_nodes_agree (e : Element) (p : Path) :
    (∀ c more, p.nodes e = .ok (c :: more) → p.node e = .ok c ∧ p.textAt e = .ok c.text) ∧
    (p.nodes e = .ok [] → p.node e = .error (p.missing p.terminal) ∧
      p.textAt e = .error (p.missing p.terminal)) ∧
    (∀ failure, p.nodes e = .error failure →
      (∃ tag, Stops e p.parent tag ∧ failure = p.missing tag) ∧
      p.node e = .error failure ∧ p.textAt e = .error failure) ∧
    ∀ selected, p.nodes e = .ok selected ↔
      ∃ parent, Reaches e p.parent parent ∧ parent.Lists p.terminal selected := by
  have hnode := node_eq_first_of_nodes (e := e) (p := p)
  refine ⟨?_, ?_, ?_, ?_⟩
  · intro c more h
    rw [h] at hnode
    exact ⟨hnode, by rw [Path.textAt, hnode]; rfl⟩
  · intro h
    rw [h] at hnode
    exact ⟨hnode, by rw [Path.textAt, hnode]; rfl⟩
  · intro failure h
    rw [h] at hnode
    exact ⟨nodes_eq_error.mp h, hnode, by rw [Path.textAt, hnode]; rfl⟩
  · intro selected
    exact nodes_eq_ok

end XmlHarvest
