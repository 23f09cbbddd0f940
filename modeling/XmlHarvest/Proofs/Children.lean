import Mathlib.Data.List.Forall2
import XmlHarvest.Xml.Node

/-! # Children by their positions

The child elements with a tag are those at the positions at which there is such a child, in
the order of the positions. -/
set_option autoImplicit false

namespace XmlHarvest

open Xml

/-- The child element at a position among all children, whatever kind those are of. -/
def Xml.Element.elementAt? (e : Element) (position : Nat) : Option Element :=
  e.children[position]?.bind Node.element?

/-- The list of all child elements with a tag: one for each position at which there is
such a child, in the order of the positions. -/
def Xml.Element.Lists (e : Element) (tag : Text) (selected : List Element) : Prop :=
  ∃ positions : List Nat, positions.Pairwise (· < ·) ∧
    (∀ i, i ∈ positions ↔ ∃ c, e.elementAt? i = some c ∧ c.tag = tag) ∧
    List.Forall₂ (fun i c => e.elementAt? i = some c) positions selected

/-- Positions in order are determined by which ones they are. -/
theorem positions_eq {ps qs : List Nat} (hps : ps.Pairwise (· < ·)) (hqs : qs.Pairwise (· < ·))
    (h : ∀ i, i ∈ ps ↔ i ∈ qs) : ps = qs := by
  have hdistinct : ∀ {is : List Nat}, is.Pairwise (· < ·) → is.Nodup :=
    fun his => his.imp fun hlt => Nat.ne_of_lt hlt
  have hperm : ps.Perm qs :=
    (List.perm_ext_iff_of_nodup (hdistinct hps) (hdistinct hqs)).mpr h
  exact hperm.eq_of_pairwise (fun i j _ _ hij hji => absurd hij (Nat.lt_asymm hji)) hps hqs

theorem elements_eq_of_positions {e : Element} {positions : List Nat} {as bs : List Element}
    (ha : List.Forall₂ (fun i c => e.elementAt? i = some c) positions as)
    (hb : List.Forall₂ (fun i c => e.elementAt? i = some c) positions bs) : as = bs := by
  induction ha generalizing bs with
  | nil =>
    cases hb
    rfl
  | cons head _ ih =>
    cases hb with
    | cons head' rest' =>
      rw [head] at head'
      cases head'
      rw [ih rest']

/-- The children after the first one are one position further. -/
theorem elementAt?_succ (tag : Text) (node : Node) (rest : List Node) (i : Nat) :
    (⟨tag, node :: rest⟩ : Element).elementAt? (i + 1) = (⟨tag, rest⟩ : Element).elementAt? i := by
  rw [Element.elementAt?, Element.elementAt?, List.getElem?_cons_succ]

theorem elementAt?_zero (tag : Text) (node : Node) (rest : List Node) :
    (⟨tag, node :: rest⟩ : Element).elementAt? 0 = node.element? := rfl

theorem childrenTagged_cons (name tag : Text) (node : Node) (rest : List Node) :
    (⟨name, node :: rest⟩ : Element).childrenTagged tag =
      (node.element?.toList.filter fun c => c.tag == tag) ++
        (⟨name, rest⟩ : Element).childrenTagged tag := by
  rw [Element.childrenTagged, Element.elements, List.filterMap_cons]
  cases node.element? with
  | none => rfl
  | some c => exact List.filter_append [c] _

/-- Choosing the children with a tag lists them. -/
theorem lists_childrenTagged (e : Element) (tag : Text) : e.Lists tag (e.childrenTagged tag) := by
  obtain ⟨name, children⟩ := e
  induction children with
  | nil => exact ⟨[], .nil, by simp [Element.elementAt?], .nil⟩
  | cons node rest ih =>
    obtain ⟨positions, hordered, hmem, hat⟩ := ih
    have hordered' : (positions.map (· + 1)).Pairwise (· < ·) :=
      List.pairwise_map.mpr (hordered.imp fun hlt => Nat.succ_lt_succ hlt)
    have hat' : List.Forall₂ (fun i c => (⟨name, node :: rest⟩ : Element).elementAt? i = some c)
        (positions.map (· + 1)) ((⟨name, rest⟩ : Element).childrenTagged tag) := by
      rw [List.forall₂_map_left_iff]
      exact hat.imp fun i c hc => by rw [elementAt?_succ, hc]
    have hlater : ∀ i, i + 1 ∈ positions.map (· + 1) ↔
        ∃ c, (⟨name, node :: rest⟩ : Element).elementAt? (i + 1) = some c ∧ c.tag = tag := by
      intro i
      rw [elementAt?_succ, ← hmem]
      simp
    have hnotfirst : 0 ∉ positions.map (· + 1) := by simp
    rw [childrenTagged_cons]
    by_cases hfirst : ∃ c, node.element? = some c ∧ c.tag = tag
    · -- the first child is listed before those after it
      obtain ⟨c, hc, htag⟩ := hfirst
      refine ⟨0 :: positions.map (· + 1), List.pairwise_cons.mpr ⟨by simp, hordered'⟩, ?_, ?_⟩
      · intro i
        cases i with
        | zero => simp [elementAt?_zero, hc, htag]
        | succ i => simp [← hlater]
      · have hone : (node.element?.toList.filter fun c => c.tag == tag) = [c] := by simp [hc, htag]
        rw [hone]
        exact .cons (by rw [elementAt?_zero, hc]) hat'
    · refine ⟨positions.map (· + 1), hordered', ?_, ?_⟩
      · intro i
        cases i with
        | zero => simpa [elementAt?_zero] using hfirst
        | succ i => exact hlater i
      · have hnone : (node.element?.toList.filter fun c => c.tag == tag) = [] := by
          rw [List.filter_eq_nil_iff]
          intro c hc htag
          exact hfirst ⟨c, Option.mem_toList.mp hc, by simpa using htag⟩
        rw [hnone]
        exact hat'

theorem lists_iff {e : Element} {tag : Text} {selected : List Element} :
    e.Lists tag selected ↔ e.childrenTagged tag = selected := by
  constructor
  · rintro ⟨positions, hordered, hmem, hat⟩
    obtain ⟨positions', hordered', hmem', hat'⟩ := lists_childrenTagged e tag
    have hsame : positions' = positions :=
      positions_eq hordered' hordered fun i => (hmem' i).trans (hmem i).symm
    subst hsame
    exact elements_eq_of_positions hat' hat
  · rintro rfl
    exact lists_childrenTagged e tag

theorem lists_unique {e : Element} {tag : Text} {selected selected' : List Element}
    (h : e.Lists tag selected) (h' : e.Lists tag selected') : selected = selected' :=
  (lists_iff.mp h).symm.trans (lists_iff.mp h')

end XmlHarvest
