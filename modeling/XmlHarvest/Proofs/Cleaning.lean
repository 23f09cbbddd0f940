import XmlHarvest.Document
import XmlHarvest.Proofs.Text.Split
import XmlHarvest.Proofs.Text.Trim

/-! # What cleaning leaves of a text

Cleaning changes a text at its front, at its line ends and at its back.  Markup at
the front is none of these: a text that begins with a complete tag keeps it, and
what follows the tag is cleaned at its line ends and at its back only. -/
set_option autoImplicit false

namespace XmlHarvest

namespace Text

variable {α : Type} {p : α → Bool} {front cs : List α} {c : α}

theorem dropEnd_append (h : front.getLast? = some c) (hc : p c = false) :
    dropEnd p (front ++ cs) = front ++ dropEnd p cs := by
  have hfront : dropEnd p front = front := dropEnd_of_getLast? fun d hd => by
    cases h.symm.trans hd
    exact hc
  simp only [dropEnd, List.reverse_append, List.dropWhile_append] at hfront ⊢
  split
  · rename_i hempty
    rw [List.isEmpty_iff] at hempty
    simp [hempty, hfront]
  · simp

end Text

namespace Document

variable {c : CodePoint} {front cs mark : Text}

/-! ## Marks at the front -/

def byteOrderMark : Text := "\ufeff"

def visibleMark : Text := "ï»¿"

def dropStart (mark cs : Text) : Text := (Text.afterStart? mark cs).getD cs

theorem dropStart_append : dropStart mark (mark ++ cs) = cs := by
  rw [dropStart, Text.afterStart?_eq_some.mpr rfl]
  rfl

theorem dropStart_of_no_mark (h : ¬ mark <+: cs) : dropStart mark cs = cs := by
  cases hafter : Text.afterStart? mark cs with
  | none => rw [dropStart, hafter]; rfl
  | some rest => exact absurd ⟨rest, (Text.afterStart?_eq_some.mp hafter).symm⟩ h

theorem dropMark_eq (cs : Text) : dropMark cs = dropStart byteOrderMark cs := by
  cases cs with
  | nil => rfl
  | cons c cs =>
    by_cases hc : c = '\ufeff'
    · subst hc
      rfl
    · have hnot : ¬ byteOrderMark <+: c :: cs := fun h => hc (List.cons_prefix_cons.mp h).1.symm
      rw [dropStart_of_no_mark hnot]
      simp [dropMark, hc]

theorem dropVisibleMark_eq (cs : Text) : dropVisibleMark cs = dropStart visibleMark cs := by
  by_cases h : visibleMark <+: cs
  · obtain ⟨rest, rfl⟩ := h
    rw [dropStart_append]
    rfl
  · rw [dropStart_of_no_mark h, dropVisibleMark.eq_def]
    split
    · rename_i a b c rest
      refine if_neg fun hall => h ⟨rest, ?_⟩
      simp only [Bool.and_eq_true, beq_iff_eq] at hall
      obtain ⟨⟨rfl, rfl⟩, rfl⟩ := hall
      rfl
    · rfl

/-- What is left of a text when the marks and the hidden characters at its front are
dropped. -/
def dropFront (cs : Text) : Text :=
  (dropStart visibleMark (dropStart byteOrderMark cs)).dropWhile isHidden

theorem clean_eq (cs : Text) : clean cs = Text.trim (normalizeLineEnds (dropFront cs)) := by
  rw [clean, dropMark_eq, dropVisibleMark_eq]
  rfl

/-- A text with nothing at its front that is to be dropped. -/
structure ClearFront (cs : Text) : Prop where
  mark : ¬ byteOrderMark <+: cs
  visible : ¬ visibleMark <+: cs
  control : ∀ c, cs.head? = some c → 32 ≤ c.toNat
  blank : ∀ c, cs.head? = some c → Text.isBlank c = false

theorem toNat_lt_of_isHidden (h : isHidden c = true) : c.toNat < 32 := by
  rw [isHidden, Bool.and_eq_true, Bool.and_eq_true, Bool.and_eq_true, decide_eq_true_iff] at h
  exact h.1.1.1

theorem ClearFront.not_hidden (h : ClearFront cs) :
    ∀ c, cs.head? = some c → isHidden c = false := by
  intro c hc
  by_contra hne
  have hlow : c.toNat < 32 := toNat_lt_of_isHidden (Bool.of_not_eq_false hne)
  have hhigh : 32 ≤ c.toNat := h.control c hc
  omega

theorem clearFront_of_markup (h : cs.head? = some (.char '<')) : ClearFront cs := by
  obtain ⟨rest, rfl⟩ := List.head?_eq_some_iff.mp h
  refine ⟨?_, ?_, ?_, ?_⟩
  · exact fun hmark => absurd (List.cons_prefix_cons.mp hmark).1 (by decide)
  · exact fun hmark => absurd (List.cons_prefix_cons.mp hmark).1 (by decide)
  · rintro c ⟨⟩
    decide
  · rintro c ⟨⟩
    decide

theorem dropFront_of_clearFront (h : ClearFront cs) : dropFront cs = cs := by
  rw [dropFront, dropStart_of_no_mark h.mark, dropStart_of_no_mark h.visible,
    Text.dropWhile_of_head? h.not_hidden]

/-! ## Line ends -/

theorem joinLineEnds_append (h : CodePoint.char '\r' ∉ front) :
    joinLineEnds (front ++ cs) = front ++ joinLineEnds cs := by
  induction front with
  | nil => rfl
  | cons c front ih =>
    have hc : c ≠ .char '\r' := by
      rintro rfl
      simp at h
    have hfront : CodePoint.char '\r' ∉ front := fun hmem => h (List.mem_cons_of_mem _ hmem)
    simp [joinLineEnds, hc, ih hfront]

theorem normalizeLineEnds_append (h : CodePoint.char '\r' ∉ front) :
    normalizeLineEnds (front ++ cs) = front ++ normalizeLineEnds cs := by
  have hkept :
      (front.map fun c : CodePoint => if c == '\r' then CodePoint.char '\n' else c) = front := by
    conv_rhs => rw [← List.map_id front]
    apply List.map_congr_left
    intro c hc
    have hne : c ≠ .char '\r' := by
      rintro rfl
      exact h hc
    simp [hne]
  rw [normalizeLineEnds, joinLineEnds_append h, List.map_append, hkept]
  rfl

def cleanRest (cs : Text) : Text :=
  Text.dropEnd Text.isBlank (normalizeLineEnds cs)

/-- Markup at the front of a text is left as it is. -/
theorem clean_append (hhead : front.head? = some (.char '<'))
    (hlast : front.getLast? = some (.char '>')) (hline : CodePoint.char '\r' ∉ front) :
    clean (front ++ cs) = front ++ cleanRest cs := by
  have hmarkup : ∀ rest, (front ++ rest).head? = some (.char '<') := by
    intro rest
    rw [List.head?_append, hhead]
    rfl
  have hclear : ClearFront (front ++ cs) := clearFront_of_markup (hmarkup cs)
  have hsolid : ClearFront (front ++ normalizeLineEnds cs) := clearFront_of_markup (hmarkup _)
  rw [clean_eq, dropFront_of_clearFront hclear, normalizeLineEnds_append hline, Text.trim,
    Text.stripOf, Text.dropWhile_of_head? hsolid.blank]
  exact Text.dropEnd_append hlast (by decide)

end Document
end XmlHarvest
