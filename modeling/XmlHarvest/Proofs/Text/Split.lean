import Mathlib.Data.List.Basic
import XmlHarvest.Text.Split

/-! # Cutting texts

What the parts of a cut text are: `afterStart?` takes a text off the front,
`cutAt?` takes one apart at a character, and `splitOn` at all its occurrences; the
last is undone by `joinWith`. -/
set_option autoImplicit false

namespace XmlHarvest.Text

theorem afterStart?_eq_some {α : Type} [BEq α] [LawfulBEq α] {start cs rest : List α} :
    afterStart? start cs = some rest ↔ cs = start ++ rest := by
  induction start generalizing cs with
  | nil =>
    simp only [afterStart?, List.nil_append, Option.some.injEq]
  | cons a as ih =>
    cases cs with
    | nil => simp [afterStart?]
    | cons c cs =>
      rw [afterStart?]
      by_cases hac : a = c
      · subst hac
        simp [ih]
      · simp [hac, Ne.symm hac]

section Cutting

variable {α : Type} [BEq α] [LawfulBEq α] {sep : α} {cs : List α}

theorem cutAt?_eq_some {before after : List α}
    (h : cutAt? sep cs = some (before, after)) : cs = before ++ sep :: after := by
  induction cs generalizing before with
  | nil => cases h
  | cons c cs ih =>
    rw [cutAt?] at h
    split at h
    · rename_i hc
      cases h
      rw [beq_iff_eq.mp hc]
      rfl
    · obtain ⟨⟨before', after'⟩, hcut, hcons⟩ := Option.map_eq_some_iff.mp h
      cases hcons
      rw [ih hcut]
      rfl

end Cutting

section Joining

variable {α : Type} {sep c : α} {piece : List α} {parts : List (List α)}

theorem joinWith_cons_cons (between piece next : List α) (parts : List (List α)) :
    joinWith between (piece :: next :: parts) =
      piece ++ between ++ joinWith between (next :: parts) := rfl

theorem joinWith_cons (h : parts ≠ []) :
    joinWith [sep] (piece :: parts) = piece ++ sep :: joinWith [sep] parts := by
  cases parts with
  | nil => exact absurd rfl h
  | cons next more => simp [joinWith]

theorem mem_joinWith (h : c ∈ joinWith [sep] parts) :
    c = sep ∨ ∃ piece ∈ parts, c ∈ piece := by
  induction parts with
  | nil => simp [joinWith] at h
  | cons piece parts ih =>
    by_cases hparts : parts = []
    · subst hparts
      exact .inr ⟨piece, List.mem_singleton_self piece, h⟩
    · rw [joinWith_cons hparts, List.mem_append, List.mem_cons] at h
      rcases h with hc | rfl | hc
      · exact .inr ⟨piece, List.mem_cons_self, hc⟩
      · exact .inl rfl
      · rcases ih hc with hsep | ⟨other, hother, hc⟩
        · exact .inl hsep
        · exact .inr ⟨other, List.mem_cons_of_mem piece hother, hc⟩

theorem joinWith_ne_nil (hparts : parts ≠ []) (hne : ∀ piece ∈ parts, piece ≠ []) :
    joinWith [sep] parts ≠ [] := by
  cases parts with
  | nil => exact absurd rfl hparts
  | cons piece parts =>
    by_cases hmore : parts = []
    · subst hmore
      exact hne piece List.mem_cons_self
    · simp [joinWith_cons hmore]

theorem head?_joinWith (hne : ∀ piece ∈ parts, piece ≠ [])
    (h : (joinWith [sep] parts).head? = some c) : ∃ piece ∈ parts, c ∈ piece := by
  cases parts with
  | nil => simp [joinWith] at h
  | cons piece parts =>
    have hpiece : piece ≠ [] := hne piece List.mem_cons_self
    refine ⟨piece, List.mem_cons_self, List.mem_of_head? ?_⟩
    by_cases hparts : parts = []
    · subst hparts
      exact h
    · rwa [joinWith_cons hparts, List.head?_append_of_ne_nil _ hpiece] at h

theorem getLast?_joinWith (hne : ∀ piece ∈ parts, piece ≠ [])
    (h : (joinWith [sep] parts).getLast? = some c) : ∃ piece ∈ parts, c ∈ piece := by
  induction parts with
  | nil => simp [joinWith] at h
  | cons piece parts ih =>
    by_cases hparts : parts = []
    · subst hparts
      exact ⟨piece, List.mem_cons_self, List.mem_of_getLast? h⟩
    · have hrest : ∀ p ∈ parts, p ≠ [] := fun p hp => hne p (List.mem_cons_of_mem piece hp)
      have hlast : (joinWith [sep] parts).getLast? = some c := by
        have hjoin : joinWith [sep] parts ≠ [] := joinWith_ne_nil hparts hrest
        rw [joinWith_cons hparts, List.getLast?_append, List.getLast?_cons,
          List.getLast?_eq_some_getLast hjoin] at h
        rw [List.getLast?_eq_some_getLast hjoin]
        exact h
      obtain ⟨other, hother, hc⟩ := ih hrest hlast
      exact ⟨other, List.mem_cons_of_mem piece hother, hc⟩

end Joining

section Splitting

variable {α : Type} [BEq α] {sep : α} {cs piece : List α} {parts : List (List α)}

theorem splitOn_ne_nil : splitOn sep cs ≠ [] := by
  induction cs with
  | nil => simp [splitOn]
  | cons c cs ih =>
    rw [splitOn]
    split
    · simp
    · split <;> simp

variable [LawfulBEq α]

theorem joinWith_splitOn : joinWith [sep] (splitOn sep cs) = cs := by
  induction cs with
  | nil => rfl
  | cons c cs ih =>
    rw [splitOn]
    by_cases hc : c = sep
    · subst hc
      simp [joinWith_cons splitOn_ne_nil, ih]
    · cases hsplit : splitOn sep cs with
      | nil => exact absurd hsplit splitOn_ne_nil
      | cons first more =>
        rw [hsplit] at ih
        have hjoin : joinWith [sep] ((c :: first) :: more) =
            c :: joinWith [sep] (first :: more) := by
          cases more <;> simp [joinWith]
        simp [hc, hjoin, ih]

theorem notMem_of_mem_splitOn (h : piece ∈ splitOn sep cs) : sep ∉ piece := by
  induction cs generalizing piece with
  | nil =>
    rw [splitOn, List.mem_singleton] at h
    simp [h]
  | cons c cs ih =>
    rw [splitOn] at h
    split at h
    · rcases List.mem_cons.mp h with hpiece | hpiece
      · simp [hpiece]
      · exact ih hpiece
    · rename_i hc
      have hne : sep ≠ c := fun heq => hc (beq_iff_eq.mpr heq.symm)
      cases hsplit : splitOn sep cs with
      | nil => exact absurd hsplit splitOn_ne_nil
      | cons first more =>
        rw [hsplit] at h ih
        rcases List.mem_cons.mp h with hpiece | hpiece
        · have hfirst : sep ∉ first := ih List.mem_cons_self
          simp [hpiece, hne, hfirst]
        · exact ih (List.mem_cons_of_mem first hpiece)

theorem splitOn_of_notMem (h : sep ∉ piece) : splitOn sep piece = [piece] := by
  induction piece with
  | nil => rfl
  | cons c piece ih =>
    have hc : c ≠ sep := by
      rintro rfl
      simp at h
    have hpiece : sep ∉ piece := fun hmem => h (List.mem_cons_of_mem c hmem)
    simp [splitOn, hc, ih hpiece]

theorem splitOn_append (h : sep ∉ piece) :
    splitOn sep (piece ++ sep :: cs) = piece :: splitOn sep cs := by
  induction piece with
  | nil => simp [splitOn]
  | cons c piece ih =>
    have hc : c ≠ sep := by
      rintro rfl
      simp at h
    have hpiece : sep ∉ piece := fun hmem => h (List.mem_cons_of_mem c hmem)
    simp [splitOn, hc, ih hpiece]

/-- Pieces without the separator are what the joined text is split into. -/
theorem splitOn_joinWith (hne : parts ≠ []) (h : ∀ piece ∈ parts, sep ∉ piece) :
    splitOn sep (joinWith [sep] parts) = parts := by
  induction parts with
  | nil => exact absurd rfl hne
  | cons piece parts ih =>
    have hpiece : sep ∉ piece := h piece List.mem_cons_self
    by_cases hparts : parts = []
    · subst hparts
      exact splitOn_of_notMem hpiece
    · have hrest : ∀ p ∈ parts, sep ∉ p := fun p hp => h p (List.mem_cons_of_mem piece hp)
      rw [joinWith_cons hparts, splitOn_append hpiece, ih hparts hrest]

end Splitting
end XmlHarvest.Text
