import Mathlib.Data.List.DropRight
import XmlHarvest.Text.Blank

/-! # Trimmed texts

What `stripOf p` leaves has no character satisfying `p` at either end, and texts
of that kind are left as they are. -/
set_option autoImplicit false

namespace XmlHarvest.Text

section Ends

variable {α : Type} {p : α → Bool} {cs : List α} {c : α}

theorem dropEnd_prefix : dropEnd p cs <+: cs := cs.rdropWhile_prefix p

theorem dropEnd_getLast? (h : (dropEnd p cs).getLast? = some c) : p c = false := by
  have hne : dropEnd p cs ≠ [] := by
    intro hnil
    rw [hnil] at h
    cases h
  have hlast := List.rdropWhile_last_not p cs hne
  rw [List.getLast?_eq_some_getLast hne] at h
  cases h
  exact Bool.eq_false_iff.mpr hlast

theorem dropEnd_of_getLast? (h : ∀ d, cs.getLast? = some d → p d = false) :
    dropEnd p cs = cs := by
  refine List.rdropWhile_eq_self_iff.mpr fun hne => ?_
  rw [h _ (List.getLast?_eq_some_getLast hne)]
  exact Bool.false_ne_true

theorem dropWhile_of_head? (h : ∀ d, cs.head? = some d → p d = false) :
    cs.dropWhile p = cs := by
  cases cs with
  | nil => rfl
  | cons d rest => exact List.dropWhile_cons_of_neg (by rw [h d rfl]; exact Bool.false_ne_true)

theorem stripOf_head? (h : (stripOf p cs).head? = some c) : p c = false := by
  have hkept : (cs.dropWhile p).head? = some c := by
    have hprefix : dropEnd p (cs.dropWhile p) <+: cs.dropWhile p := dropEnd_prefix
    obtain ⟨tail, htail⟩ := hprefix
    rw [← htail, List.head?_append, show (dropEnd p (cs.dropWhile p)).head? = some c from h]
    rfl
  have hnot := List.head?_dropWhile_not p cs
  rw [hkept] at hnot
  exact hnot

theorem stripOf_getLast? (h : (stripOf p cs).getLast? = some c) : p c = false :=
  dropEnd_getLast? h

/-- A text without the characters at its ends is left as it is. -/
theorem stripOf_of_ends (hhead : ∀ d, cs.head? = some d → p d = false)
    (hlast : ∀ d, cs.getLast? = some d → p d = false) : stripOf p cs = cs := by
  rw [stripOf, dropWhile_of_head? hhead, dropEnd_of_getLast? hlast]

theorem stripOf_stripOf : stripOf p (stripOf p cs) = stripOf p cs :=
  stripOf_of_ends (fun _ => stripOf_head?) (fun _ => stripOf_getLast?)

theorem dropEnd_append_end (p : α → Bool) (cs : List α) :
    ∃ back, cs = dropEnd p cs ++ back ∧ ∀ d ∈ back, p d = true :=
  ⟨cs.rtakeWhile p, List.rdropWhile_append_rtakeWhile.symm, fun _ => List.mem_rtakeWhile_imp⟩

/-- What is taken off a text are the characters at its ends. -/
theorem stripOf_append (p : α → Bool) (cs : List α) :
    ∃ front back, cs = front ++ (stripOf p cs ++ back) ∧
    (∀ d ∈ front, p d = true) ∧ ∀ d ∈ back, p d = true := by
  obtain ⟨back, hback, hall⟩ := dropEnd_append_end p (cs.dropWhile p)
  refine ⟨cs.takeWhile p, back, ?_, fun _ => List.mem_takeWhile_imp, hall⟩
  rw [stripOf, ← hback, List.takeWhile_append_dropWhile]

/-- A text is what is left of it between characters that are taken off. -/
theorem stripOf_enclosed {front back : List α} (hfront : ∀ d ∈ front, p d = true)
    (hback : ∀ d ∈ back, p d = true) (hne : cs ≠ []) (hhead : ∀ d, cs.head? = some d → p d = false)
    (hlast : ∀ d, cs.getLast? = some d → p d = false) :
    stripOf p (front ++ (cs ++ back)) = cs := by
  have hstart : ∀ d, (cs ++ back).head? = some d → p d = false := by
    intro d hd
    rw [List.head?_append_of_ne_nil _ hne] at hd
    exact hhead d hd
  have hend : dropEnd p (cs ++ back) = dropEnd p cs := by
    have hreverse : ∀ d ∈ back.reverse, p d = true := by simpa using hback
    rw [dropEnd, List.reverse_append, List.dropWhile_append_of_pos hreverse, dropEnd]
  rw [stripOf, List.dropWhile_append_of_pos hfront, dropWhile_of_head? hstart, hend,
    dropEnd_of_getLast? hlast]

end Ends

theorem trim_trim {cs : Text} : trim (trim cs) = trim cs := stripOf_stripOf

end XmlHarvest.Text
