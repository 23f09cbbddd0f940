import XmlHarvest.Proofs.Text.Split
import XmlHarvest.Proofs.Text.Trim
import XmlHarvest.Value.Coercion

/-! # Words

The words of a text are its maximal runs of characters that are not white space.  Every
text has one list of them, and `words` finds it; where white space separates two texts,
the words are those of the one and then those of the other.  A squished text is made of
the words with single spaces between them, so it has the same words again. -/
set_option autoImplicit false

namespace XmlHarvest.Text

def IsGap (cs : Text) : Prop := ∀ c ∈ cs, isBlank c = true

structure IsWord (cs : Text) : Prop where
  nonempty : cs ≠ []
  solid : ∀ c ∈ cs, isBlank c = false

def Breaks (cs : Text) : Prop := ∀ c, cs.head? = some c → isBlank c = true

/-- The maximal runs of characters that are not white space, from left to right.  No word
follows another one directly, since the text breaks after each of them. -/
inductive Runs : Text → List (Text) → Prop
  | gap {gap : Text} (blank : IsGap gap) : Runs gap []
  | word {gap w rest : Text} {ws : List (Text)} (blank : IsGap gap) (word : IsWord w)
      (breaks : Breaks rest) (more : Runs rest ws) : Runs (gap ++ (w ++ rest)) (w :: ws)

variable {c : CodePoint} {cs ds gap w : Text} {ws vs : List (Text)}

theorem isGap_nil : IsGap [] := fun _ h => absurd h List.not_mem_nil

theorem isGap_space : IsGap [' '] := List.forall_mem_singleton.mpr rfl

theorem IsGap.breaks_append (hgap : IsGap gap) (hne : gap ≠ []) : Breaks (gap ++ cs) := by
  intro c hc
  rw [List.head?_append_of_ne_nil _ hne] at hc
  exact hgap c (List.mem_of_head? hc)

theorem IsGap.append {gap' : Text} (hgap : IsGap gap) (hgap' : IsGap gap') :
    IsGap (gap ++ gap') := fun c hc => (List.mem_append.mp hc).elim (hgap c) (hgap' c)

/-- A gap that does not end with white space is empty. -/
theorem IsGap.eq_nil_of_getLast? (hgap : IsGap gap)
    (h : ∀ c, gap.getLast? = some c → isBlank c = false) : gap = [] := by
  by_contra hne
  have hlast : gap.getLast? = some (gap.getLast hne) := List.getLast?_eq_some_getLast hne
  have hblank : isBlank (gap.getLast hne) = true := hgap _ (List.getLast_mem hne)
  rw [h _ hlast] at hblank
  cases hblank

/-! ## Every text has one list of words -/

namespace Runs

theorem after_gap (hgap : IsGap gap) (h : Runs cs ws) : Runs (gap ++ cs) ws := by
  cases h with
  | gap hblank => exact .gap (hgap.append hblank)
  | word hblank hword hbreaks hmore =>
    rw [← List.append_assoc]
    exact .word (hgap.append hblank) hword hbreaks hmore

/-- A character that is not white space is a word, or the beginning of the first one. -/
theorem exists_cons (hc : isBlank c = false) (h : Runs cs ws) : ∃ vs, Runs (c :: cs) vs := by
  by_cases hbreaks : Breaks cs
  · have hword : IsWord [c] := ⟨List.cons_ne_nil c [], List.forall_mem_singleton.mpr hc⟩
    exact ⟨[c] :: ws, .word isGap_nil hword hbreaks h⟩
  · cases h with
    | gap hblank => exact absurd (fun d hd => hblank d (List.mem_of_head? hd)) hbreaks
    | @word gap w rest ws hblank hword hrest hmore =>
      have hgap : gap = [] := by
        by_contra hne
        exact hbreaks (hblank.breaks_append hne)
      subst hgap
      have hlonger : IsWord (c :: w) :=
        ⟨List.cons_ne_nil c w, List.forall_mem_cons.mpr ⟨hc, hword.solid⟩⟩
      exact ⟨(c :: w) :: ws, .word isGap_nil hlonger hrest hmore⟩

theorem exists_runs (cs : Text) : ∃ ws, Runs cs ws := by
  induction cs with
  | nil => exact ⟨[], .gap isGap_nil⟩
  | cons c cs ih =>
    obtain ⟨ws, hws⟩ := ih
    cases hc : isBlank c with
    | true => exact ⟨ws, hws.after_gap (List.forall_mem_singleton.mpr hc : IsGap [c])⟩
    | false => exact exists_cons hc hws

/-- White space between two texts keeps their words apart. -/
theorem append (hcs : Runs cs ws) (hgap : IsGap gap) (hne : gap ≠ []) (hds : Runs ds vs) :
    Runs (cs ++ (gap ++ ds)) (ws ++ vs) := by
  induction hcs with
  | gap hblank => exact (hds.after_gap hgap).after_gap hblank
  | @word before w rest ws hblank hword hbreaks _ ih =>
    have hnext : Breaks (rest ++ (gap ++ ds)) := by
      by_cases hrest : rest = []
      · subst hrest
        exact hgap.breaks_append hne
      · intro c hc
        rw [List.head?_append_of_ne_nil _ hrest] at hc
        exact hbreaks c hc
    rw [List.append_assoc, List.append_assoc]
    exact .word hblank hword hnext ih

theorem isWord (h : Runs cs ws) : ∀ w ∈ ws, IsWord w := by
  induction h with
  | gap => exact fun w hw => absurd hw List.not_mem_nil
  | word _ hword _ _ ih => exact List.forall_mem_cons.mpr ⟨hword, ih⟩

/-- Joined with spaces, words are the words of the text that they make. -/
theorem joined (h : ∀ w ∈ ws, IsWord w) : Runs (joinWith [CodePoint.char ' '] ws) ws := by
  induction ws with
  | nil => exact .gap isGap_nil
  | cons w ws ih =>
    obtain ⟨hword, hmore⟩ := List.forall_mem_cons.mp h
    have hend : Breaks [] := fun _ hc => nomatch hc
    by_cases hws : ws = []
    · subst hws
      have hlast : Runs ([] ++ (w ++ [])) [w] := .word isGap_nil hword hend (.gap isGap_nil)
      rwa [List.append_nil] at hlast
    · rw [joinWith_cons hws]
      have hspace : Runs (CodePoint.char ' ' :: joinWith [CodePoint.char ' '] ws) ws :=
        (ih hmore).after_gap isGap_space
      have hbreaks : Breaks (CodePoint.char ' ' :: joinWith [CodePoint.char ' '] ws) :=
        isGap_space.breaks_append (List.cons_ne_nil _ _)
      exact .word isGap_nil hword hbreaks hspace

/-- The words hold all that is not white space. -/
theorem filter_eq (h : Runs cs ws) : cs.filter (fun c => !isBlank c) = ws.flatten := by
  induction h with
  | gap hblank => exact List.filter_eq_nil_iff.mpr fun c hc => by simp [hblank c hc]
  | @word gap w rest ws hblank hword _ _ ih =>
    have hgap : gap.filter (fun c => !isBlank c) = [] :=
      List.filter_eq_nil_iff.mpr fun c hc => by simp [hblank c hc]
    have hw : w.filter (fun c => !isBlank c) = w :=
      List.filter_eq_self.mpr fun c hc => by simp [hword.solid c hc]
    rw [List.filter_append, List.filter_append, hgap, hw, ih, List.nil_append, List.flatten_cons]

end Runs

/-! ## What `words` finds -/

theorem words_cons_blank (hc : isBlank c = true) : words (c :: cs) = words cs := by
  rw [words.eq_def]
  exact if_pos hc

/-- A character that is not white space is a word by itself if the text breaks after it. -/
theorem words_cons_breaks (hc : isBlank c = false) (hbreaks : Breaks cs) :
    words (c :: cs) = [c] :: words cs := by
  rw [words.eq_def]
  cases cs with
  | nil => simp [hc]
  | cons d cs =>
    have hd : isBlank d = true := hbreaks d rfl
    dsimp only
    cases words (d :: cs) with
    | nil => simp [hc]
    | cons v vs => simp [hc, hd]

theorem words_cons_solid {d : CodePoint} (hc : isBlank c = false) (hd : isBlank d = false)
    (hcs : words (d :: cs) = w :: ws) : words (c :: d :: cs) = (c :: w) :: ws := by
  rw [words.eq_def]
  simp [hc, hd, hcs]

theorem words_after_gap (hgap : IsGap gap) : words (gap ++ cs) = words cs := by
  induction gap with
  | nil => rfl
  | cons c gap ih =>
    obtain ⟨hc, hrest⟩ := List.forall_mem_cons.mp hgap
    rw [List.cons_append, words_cons_blank hc, ih hrest]

theorem words_word (hword : IsWord w) (hbreaks : Breaks cs) : words (w ++ cs) = w :: words cs := by
  obtain ⟨hne, hsolid⟩ := hword
  induction w with
  | nil => exact absurd rfl hne
  | cons c w ih =>
    obtain ⟨hc, hrest⟩ := List.forall_mem_cons.mp hsolid
    cases w with
    | nil => exact words_cons_breaks hc hbreaks
    | cons d w =>
      have hd : isBlank d = false := hrest d List.mem_cons_self
      exact words_cons_solid hc hd (ih (List.cons_ne_nil d w) hrest)

theorem words_of_runs (h : Runs cs ws) : words cs = ws := by
  induction h with
  | @gap gap hblank =>
    have hgap : words (gap ++ []) = words [] := words_after_gap hblank
    rwa [List.append_nil] at hgap
  | word hblank hword hbreaks _ ih => rw [words_after_gap hblank, words_word hword hbreaks, ih]

theorem words_eq_iff : words cs = ws ↔ Runs cs ws := by
  constructor
  · rintro rfl
    obtain ⟨vs, hvs⟩ := Runs.exists_runs cs
    rwa [words_of_runs hvs]
  · exact words_of_runs

theorem runs_words (cs : Text) : Runs cs (words cs) := words_eq_iff.mp rfl

theorem words_append (hgap : IsGap gap) (hne : gap ≠ []) :
    words (cs ++ (gap ++ ds)) = words cs ++ words ds :=
  words_of_runs ((runs_words cs).append hgap hne (runs_words ds))

theorem words_before_gap (hgap : IsGap gap) : words (cs ++ gap) = words cs := by
  by_cases hne : gap = []
  · rw [hne, List.append_nil]
  · have happend : words (cs ++ (gap ++ [])) = words cs ++ words [] := words_append hgap hne
    rwa [List.append_nil, show words [] = [] from rfl, List.append_nil] at happend

theorem words_trim (cs : Text) : words (trim cs) = words cs := by
  obtain ⟨front, back, hsplit, hfront, hback⟩ := stripOf_append isBlank cs
  have hcs : cs = front ++ (trim cs ++ back) := hsplit
  conv_rhs => rw [hcs, words_after_gap hfront, words_before_gap hback]

/-! ## What `collapse` makes of the words -/

theorem collapse_cons_solid (hc : isBlank c = false) : collapse (c :: cs) = c :: collapse cs := by
  rw [collapse.eq_def]
  simp [hc]

theorem collapse_solid (h : ∀ c ∈ w, isBlank c = false) :
    collapse (w ++ cs) = w ++ collapse cs := by
  induction w with
  | nil => rfl
  | cons c w ih =>
    obtain ⟨hc, hrest⟩ := List.forall_mem_cons.mp h
    rw [List.cons_append, collapse_cons_solid hc, ih hrest]
    rfl

/-- A run of white space becomes one space, however long it is. -/
theorem collapse_of_breaks (hne : cs ≠ []) (hbreaks : Breaks cs) :
    collapse cs = CodePoint.char ' ' :: collapse (cs.dropWhile isBlank) := by
  induction cs with
  | nil => exact absurd rfl hne
  | cons c cs ih =>
    have hc : isBlank c = true := hbreaks c rfl
    rw [List.dropWhile_cons_of_pos hc]
    cases cs with
    | nil => simp [collapse, hc]
    | cons d cs =>
      rw [collapse, if_pos hc]
      cases hd : isBlank d with
      | true =>
        have hnext : Breaks (d :: cs) := by
          rintro _ ⟨⟩
          exact hd
        simpa [hd] using ih (List.cons_ne_nil d cs) hnext
      | false => simp [hd]

/-- The white space in front of a text aside, collapsing joins its words. -/
theorem collapse_of_runs (h : Runs cs ws) (hlast : ∀ c, cs.getLast? = some c → isBlank c = false) :
    collapse (cs.dropWhile isBlank) = joinWith [CodePoint.char ' '] ws := by
  induction h with
  | gap hblank =>
    rw [hblank.eq_nil_of_getLast? hlast]
    rfl
  | @word gap w rest ws hblank hword hbreaks hmore ih =>
    have hstart : (w ++ rest).dropWhile isBlank = w ++ rest := by
      refine dropWhile_of_head? fun c hc => ?_
      rw [List.head?_append_of_ne_nil _ hword.nonempty] at hc
      exact hword.solid c (List.mem_of_head? hc)
    rw [List.dropWhile_append_of_pos hblank, hstart, collapse_solid hword.solid]
    by_cases hrest : rest = []
    · subst hrest
      have hws : ws = [] := (words_of_runs hmore).symm
      rw [hws]
      exact List.append_nil w
    · have hend : ∀ c, rest.getLast? = some c → isBlank c = false := by
        intro c hc
        apply hlast
        rw [List.getLast?_append_of_ne_nil _ (by simp [hrest]),
          List.getLast?_append_of_ne_nil _ hrest]
        exact hc
      -- the text goes on after the gap, so there is a word to come
      have hws : ws ≠ [] := by
        rintro rfl
        cases hmore with
        | gap hgap => exact hrest (hgap.eq_nil_of_getLast? hend)
      rw [collapse_of_breaks hrest hbreaks, ih hend, joinWith_cons hws]

theorem collapse_trim (cs : Text) : collapse (trim cs) = joinWith [CodePoint.char ' '] (words cs) := by
  have htrim : (trim cs).dropWhile isBlank = trim cs :=
    dropWhile_of_head? fun c hc => stripOf_head? hc
  have hruns : Runs (trim cs) (words cs) := words_eq_iff.mp (words_trim cs)
  rw [← htrim]
  exact collapse_of_runs hruns fun c hc => stripOf_getLast? hc

/-! ## Squished texts -/

theorem squished_eq_joined (s : Text) : squished s = joinWith " " (words s) := collapse_trim s

theorem words_squished (s : Text) : words (squished s) = words s := by
  rw [squished_eq_joined]
  exact words_of_runs (.joined (runs_words s).isWord)

/-- Two texts are squished to the same one when they have the same words. -/
theorem squished_of_words {s t : Text} (h : words s = words t) : squished s = squished t := by
  rw [squished_eq_joined, squished_eq_joined, h]

theorem squished_ends (s : Text) (h : (squished s).head? = some c ∨
    (squished s).getLast? = some c) : isBlank c = false := by
  rw [squished_eq_joined] at h
  have hwords : ∀ w ∈ words s, IsWord w := (runs_words s).isWord
  have hne : ∀ w ∈ words s, w ≠ [] := fun w hw => (hwords w hw).nonempty
  obtain ⟨w, hw, hc⟩ : ∃ w ∈ words s, c ∈ w :=
    h.elim (head?_joinWith hne) (getLast?_joinWith hne)
  exact (hwords w hw).solid c hc

end XmlHarvest.Text

namespace XmlHarvest

open Text

/-- A squished text is the list of the text's words with single spaces between them.  It is
squished already, has all that is not white space and none of it at its ends; and texts
with white space between them may be squished one by one before they are squished
together. -/
theorem squished_joins_words :
    (∀ s : Text, (Value.str s).squished = .ok (squished s) ∧
      squished s = joinWith " " (words s)) ∧
    (∀ cs ws, words cs = ws ↔ Runs cs ws) ∧
    (∀ s, squished (squished s) = squished s) ∧
    (∀ s, (squished s).filter (fun c => !isBlank c) =
      s.filter fun c => !isBlank c) ∧
    (∀ s c, (squished s).head? = some c ∨ (squished s).getLast? = some c →
      isBlank c = false) ∧
    ∀ s gap t, gap ≠ [] → isBlankText gap = true →
      squished (s ++ gap ++ t) = squished (squished s ++ gap ++ squished t) := by
  refine ⟨?_, ?_, ?_, ?_, ?_, ?_⟩
  · intro s
    exact ⟨rfl, squished_eq_joined s⟩
  · intro cs ws
    exact words_eq_iff
  · intro s
    exact squished_of_words (words_squished s)
  · intro s
    rw [(runs_words (squished s)).filter_eq, words_squished, (runs_words s).filter_eq]
  · intro s c h
    exact squished_ends s h
  · intro s gap t hne hblank
    have hgap : IsGap gap := List.all_eq_true.mp hblank
    apply squished_of_words
    simp only [List.append_assoc, words_append hgap hne, words_squished]

/-- Texts that break off in white space on both sides of a wide gap. -/
theorem squished_across_gap :
    squished ("  a\tb " ++ "\u3000" ++ "\n c") =
      squished (squished "  a\tb " ++ "\u3000" ++ squished "\n c") ∧
    squished ("  a\tb " ++ "\u3000" ++ "\n c") = "a b c" := by
  obtain ⟨-, -, -, -, -, happend⟩ := squished_joins_words
  exact ⟨happend _ _ _ (by decide) (by decide), by decide⟩

end XmlHarvest
