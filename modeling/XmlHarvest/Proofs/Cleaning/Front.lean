import Mathlib.Logic.Function.Iterate
import XmlHarvest.Proofs.Cleaning.LineEnds
import XmlHarvest.Proofs.Validation

/-! # The front of a cleaned text

A cleaned text has no carriage return and no white space at its ends.  Marks and control
characters may be left at its front, since each kind is dropped once and in a fixed
order: nothing is left exactly where the text has them in this order, each mark at most
once and all white space behind them.  Otherwise cleaning once more takes off more, and
cleaning again and again takes off everything. -/
set_option autoImplicit false

namespace XmlHarvest

open Xml

namespace Document

/-- The form that cleaning is to give to a text. -/
structure Normal (cs : Text) : Prop extends ClearFront cs where
  lines : CodePoint.char '\r' ∉ cs
  back : ∀ c, cs.getLast? = some c → Text.isBlank c = false

/-- What is to be dropped stands in the order in which it is dropped: a mark of byte order
or none, a visible one or none, hidden characters, white space. -/
def Layered (cs : Text) : Prop :=
  ∃ mark visible hidden blank body, cs = mark ++ (visible ++ (hidden ++ (blank ++ body))) ∧
    (mark = [] ∨ mark = byteOrderMark) ∧ (visible = [] ∨ visible = visibleMark) ∧
    (∀ c ∈ hidden, isHidden c = true) ∧ (∀ c ∈ blank, Text.isBlank c = true) ∧ ClearFront body

variable {c : CodePoint} {cs mark body blank hidden : Text}

/-! ## Characters at the front -/

/-- The control characters that are not hidden are white space. -/
theorem isHidden_of_control (hc : c.toNat < 32) (hblank : Text.isBlank c = false) :
    isHidden c = true := by
  have htab : c ≠ .char '\t' := by rintro rfl; cases hblank
  have hfeed : c ≠ .char '\n' := by rintro rfl; cases hblank
  have hreturn : c ≠ .char '\r' := by rintro rfl; cases hblank
  simp [isHidden, hc, htab, hfeed, hreturn]

/-! ## What every cleaned text is -/

theorem lines_clean (cs : Text) : CodePoint.char '\r' ∉ clean cs := by
  obtain ⟨front, back, hsplit, -, -⟩ :=
    Text.stripOf_append Text.isBlank (normalizeLineEnds (dropFront cs))
  rw [clean_eq]
  intro hmem
  apply notMem_normalizeLineEnds (dropFront cs)
  rw [hsplit]
  exact List.mem_append_right front (List.mem_append_left back hmem)

theorem blank_clean (hc : (clean cs).head? = some c) : Text.isBlank c = false :=
  Text.stripOf_head? hc

theorem back_clean (hc : (clean cs).getLast? = some c) : Text.isBlank c = false :=
  Text.stripOf_getLast? hc

theorem normal_clean_iff : Normal (clean cs) ↔ ClearFront (clean cs) :=
  ⟨fun h => h.toClearFront, fun h => ⟨h, lines_clean cs, fun _ => back_clean⟩⟩

theorem clean_of_normal (h : Normal cs) : clean cs = cs := by
  rw [clean_eq, dropFront_of_clearFront h.toClearFront, normalizeLineEnds_of_notMem h.lines]
  exact Text.stripOf_of_ends h.blank h.back

/-! ## Cleaning again -/

theorem length_normalizeLineEnds_le : (normalizeLineEnds cs).length ≤ cs.length := by
  rw [normalizeLineEnds_eq_unify]
  fun_induction unifyLineEnds cs with
  | case1 rest ih => simp only [List.length_cons]; omega
  | case2 rest _ ih => simp only [List.length_cons]; omega
  | case3 c rest _ _ ih => simp only [List.length_cons]; omega
  | case4 => exact Nat.le_refl _

/-- What is dropped of a text is the mark or nothing. -/
theorem dropStart_split (mark cs : Text) :
    ∃ front, cs = front ++ dropStart mark cs ∧ (front = [] ∨ front = mark) := by
  by_cases h : mark <+: cs
  · obtain ⟨rest, rfl⟩ := h
    exact ⟨mark, by rw [dropStart_append], .inr rfl⟩
  · exact ⟨[], by rw [dropStart_of_no_mark h, List.nil_append], .inl rfl⟩

theorem dropStart_suffix : dropStart mark cs <:+ cs := by
  obtain ⟨front, hsplit, -⟩ := dropStart_split mark cs
  exact ⟨front, hsplit.symm⟩

theorem dropFront_suffix : dropFront cs <:+ cs :=
  (List.dropWhile_suffix isHidden).trans (dropStart_suffix.trans dropStart_suffix)

theorem not_prefix_of_dropStart (hne : mark ≠ []) (h : dropStart mark cs = cs) : ¬ mark <+: cs := by
  rintro ⟨rest, rfl⟩
  rw [dropStart_append] at h
  exact hne (List.append_left_eq_self.mp h.symm)

/-- A front at which nothing is dropped is clear but for white space. -/
theorem clearFront_of_dropFront (h : dropFront cs = cs)
    (hblank : ∀ c, cs.head? = some c → Text.isBlank c = false) : ClearFront cs := by
  have hrest : cs <:+ dropStart visibleMark (dropStart byteOrderMark cs) := by
    conv_lhs => rw [← h]
    exact List.dropWhile_suffix isHidden
  have hmark : dropStart byteOrderMark cs = cs :=
    dropStart_suffix.eq_of_length_le (hrest.trans dropStart_suffix).length_le
  rw [hmark] at hrest
  have hvisible : dropStart visibleMark cs = cs := dropStart_suffix.eq_of_length_le hrest.length_le
  rw [dropFront, hmark, hvisible] at h
  refine ⟨not_prefix_of_dropStart (by decide) hmark, not_prefix_of_dropStart (by decide) hvisible,
    ?_, hblank⟩
  intro c hc
  have hnot := List.head?_dropWhile_not isHidden cs
  rw [h, hc] at hnot
  by_contra hlow
  have hhidden : isHidden c = true := isHidden_of_control (Nat.lt_of_not_le hlow) (hblank c hc)
  exact Bool.false_ne_true (hnot.symm.trans hhidden)

theorem length_clean_le : (clean cs).length ≤ (dropFront cs).length := by
  rw [clean_eq, Text.trim, Text.stripOf]
  exact Text.dropEnd_prefix.length_le.trans
    ((List.dropWhile_suffix _).length_le.trans length_normalizeLineEnds_le)

theorem length_clean_clean_lt (h : ¬ Normal (clean cs)) :
    (clean (clean cs)).length < (clean cs).length := by
  have hne : dropFront (clean cs) ≠ clean cs := fun hsame =>
    h (normal_clean_iff.mpr (clearFront_of_dropFront hsame fun _ => blank_clean))
  have hlength : (dropFront (clean cs)).length ≠ (clean cs).length := fun hlen =>
    hne (dropFront_suffix.eq_of_length hlen)
  have hdropped : (dropFront (clean cs)).length < (clean cs).length :=
    Nat.lt_of_le_of_ne dropFront_suffix.length_le hlength
  exact Nat.lt_of_le_of_lt length_clean_le hdropped

/-- A cleaned text is left as it is exactly when it is in the form that it is to have. -/
theorem clean_clean_iff : clean (clean cs) = clean cs ↔ Normal (clean cs) := by
  refine ⟨fun h => ?_, clean_of_normal⟩
  by_contra hnot
  have hlt := length_clean_clean_lt hnot
  rw [h] at hlt
  exact Nat.lt_irrefl _ hlt

theorem exists_normal_iterate (n : Nat) (hn : (clean cs).length ≤ n) :
    ∃ k ≤ n, Normal (clean^[k] (clean cs)) := by
  induction n generalizing cs with
  | zero =>
    have hnil : clean cs = [] := List.length_eq_zero_iff.mp (Nat.le_zero.mp hn)
    refine ⟨0, Nat.le_refl 0, normal_clean_iff.mpr ?_⟩
    rw [hnil]
    exact ⟨by decide, by decide, by simp, by simp⟩
  | succ n ih =>
    by_cases hnormal : Normal (clean cs)
    · exact ⟨0, Nat.zero_le _, hnormal⟩
    · have hlt := length_clean_clean_lt hnormal
      have hshorter : (clean (clean cs)).length ≤ n := by omega
      obtain ⟨k, hk, hk_normal⟩ := ih hshorter
      exact ⟨k + 1, by omega, hk_normal⟩

/-! ## The order in which it is dropped -/

/-- Marks whose last character is not white space stand at the front of what is left of a
text when its back is trimmed. -/
theorem prefix_cleanRest_iff (hreturn : CodePoint.char '\r' ∉ mark) (hfeed : CodePoint.char '\n' ∉ mark)
    (hlast : mark.getLast? = some c) (hc : Text.isBlank c = false) :
    mark <+: cleanRest cs ↔ mark <+: cs := by
  constructor
  · intro h
    have hlines : mark <+: normalizeLineEnds cs := h.trans Text.dropEnd_prefix
    exact prefix_of_normalizeLineEnds hfeed hlines
  · rintro ⟨rest, rfl⟩
    rw [cleanRest, normalizeLineEnds_append hreturn, Text.dropEnd_append hlast hc]
    exact List.prefix_append _ _

theorem singleton_prefix_iff : [c] <+: cs ↔ cs.head? = some c := by
  cases cs <;> simp [List.cons_prefix_cons, eq_comm]

theorem head?_cleanRest_iff (hc : Text.isBlank c = false) :
    (cleanRest cs).head? = some c ↔ cs.head? = some c := by
  have hsolid : ∀ d, Text.isBlank d = true → d ∉ [c] := by
    intro d hd hmem
    rw [List.mem_singleton.mp hmem, hc] at hd
    cases hd
  rw [← singleton_prefix_iff, ← singleton_prefix_iff]
  exact prefix_cleanRest_iff (hsolid (.char '\r') rfl) (hsolid (.char '\n') rfl) rfl hc

theorem clean_eq_cleanRest (cs : Text) :
    clean cs = cleanRest ((dropFront cs).dropWhile Text.isBlank) := by
  rw [clean_eq, Text.trim, Text.stripOf, dropWhile_normalizeLineEnds rfl]
  rfl

theorem clearFront_cleanRest_iff (hblank : ∀ c, cs.head? = some c → Text.isBlank c = false)
    (hrest : ∀ c, (cleanRest cs).head? = some c → Text.isBlank c = false) :
    ClearFront (cleanRest cs) ↔ ClearFront cs := by
  have hmark : byteOrderMark <+: cleanRest cs ↔ byteOrderMark <+: cs :=
    prefix_cleanRest_iff (by decide) (by decide) rfl (by decide)
  have hvisible : visibleMark <+: cleanRest cs ↔ visibleMark <+: cs :=
    prefix_cleanRest_iff (by decide) (by decide) rfl (by decide)
  constructor
  · intro h
    refine ⟨fun hm => h.mark (hmark.mpr hm), fun hv => h.visible (hvisible.mpr hv), ?_, hblank⟩
    intro c hc
    exact h.control c ((head?_cleanRest_iff (hblank c hc)).mpr hc)
  · intro h
    refine ⟨fun hm => h.mark (hmark.mp hm), fun hv => h.visible (hvisible.mp hv), ?_, hrest⟩
    intro c hc
    exact h.control c ((head?_cleanRest_iff (hrest c hc)).mp hc)

/-- A mark behind hidden characters and white space stands at the front only if there are
none. -/
theorem prefix_of_prefix_append (hhidden : ∀ c ∈ hidden, isHidden c = true)
    (hblank : ∀ c ∈ blank, Text.isBlank c = true) (hmark : mark.head? = some c)
    (hc : isHidden c = false ∧ Text.isBlank c = false)
    (h : mark <+: hidden ++ (blank ++ body)) : mark <+: body := by
  obtain ⟨rest, rfl⟩ := List.head?_eq_some_iff.mp hmark
  have hnone : hidden ++ blank = [] := by
    rw [← List.append_assoc] at h
    cases hfront : hidden ++ blank with
    | nil => rfl
    | cons d front =>
      rw [hfront] at h
      have hd : d ∈ hidden ++ blank := hfront ▸ List.mem_cons_self
      rw [← (List.cons_prefix_cons.mp h).1, List.mem_append] at hd
      rcases hd with hd | hd
      · rw [hhidden c hd] at hc
        cases hc.1
      · rw [hblank c hd] at hc
        cases hc.2
  rwa [← List.append_assoc, hnone, List.nil_append] at h

theorem dropWhile_layers (hhidden : ∀ c ∈ hidden, isHidden c = true)
    (hblank : ∀ c ∈ blank, Text.isBlank c = true) (hbody : ClearFront body) :
    ((hidden ++ (blank ++ body)).dropWhile isHidden).dropWhile Text.isBlank = body := by
  have hsolid : body.dropWhile Text.isBlank = body := Text.dropWhile_of_head? hbody.blank
  rw [List.dropWhile_append_of_pos hhidden, List.dropWhile_append]
  split
  · rw [Text.dropWhile_of_head? hbody.not_hidden, hsolid]
  · have hleft : ∀ c ∈ blank.dropWhile isHidden, Text.isBlank c = true := fun c hc =>
      hblank c ((List.dropWhile_suffix isHidden).subset hc)
    rw [List.dropWhile_append_of_pos hleft, hsolid]

theorem dropFront_layers {visible : Text} (hmark : mark = [] ∨ mark = byteOrderMark)
    (hvisible : visible = [] ∨ visible = visibleMark) (hhidden : ∀ c ∈ hidden, isHidden c = true)
    (hblank : ∀ c ∈ blank, Text.isBlank c = true) (hbody : ClearFront body) :
    dropFront (mark ++ (visible ++ (hidden ++ (blank ++ body)))) =
      (hidden ++ (blank ++ body)).dropWhile isHidden := by
  have hfirst : dropStart byteOrderMark (mark ++ (visible ++ (hidden ++ (blank ++ body)))) =
      visible ++ (hidden ++ (blank ++ body)) := by
    rcases hmark with rfl | rfl
    · apply dropStart_of_no_mark
      intro h
      rcases hvisible with rfl | rfl
      · exact hbody.mark (prefix_of_prefix_append hhidden hblank rfl (by decide) h)
      · exact absurd (List.cons_prefix_cons.mp h).1 (by decide)
    · exact dropStart_append
  have hsecond : dropStart visibleMark (visible ++ (hidden ++ (blank ++ body))) =
      hidden ++ (blank ++ body) := by
    rcases hvisible with rfl | rfl
    · apply dropStart_of_no_mark
      intro h
      exact hbody.visible (prefix_of_prefix_append hhidden hblank rfl (by decide) h)
    · exact dropStart_append
  rw [dropFront, hfirst, hsecond]

theorem layered_iff : Layered cs ↔ ClearFront ((dropFront cs).dropWhile Text.isBlank) := by
  constructor
  · rintro ⟨mark, visible, hidden, blank, body, rfl, hmark, hvisible, hhidden, hblank, hbody⟩
    rw [dropFront_layers hmark hvisible hhidden hblank hbody,
      dropWhile_layers hhidden hblank hbody]
    exact hbody
  · intro hbody
    obtain ⟨mark, hcs, hmark⟩ := dropStart_split byteOrderMark cs
    obtain ⟨visible, hrest, hvisible⟩ := dropStart_split visibleMark (dropStart byteOrderMark cs)
    refine ⟨mark, visible, (dropStart visibleMark (dropStart byteOrderMark cs)).takeWhile isHidden,
      (dropFront cs).takeWhile Text.isBlank, _, ?_, hmark, hvisible,
      fun _ => List.mem_takeWhile_imp, fun _ => List.mem_takeWhile_imp, hbody⟩
    rw [List.takeWhile_append_dropWhile, dropFront, List.takeWhile_append_dropWhile, ← hrest]
    exact hcs

theorem normal_clean_iff_layered : Normal (clean cs) ↔ Layered cs := by
  have hstart : ∀ c, ((dropFront cs).dropWhile Text.isBlank).head? = some c →
      Text.isBlank c = false := by
    intro c hc
    have hnot := List.head?_dropWhile_not Text.isBlank (dropFront cs)
    rw [hc] at hnot
    exact hnot
  have hrest : ∀ c, (cleanRest ((dropFront cs).dropWhile Text.isBlank)).head? = some c →
      Text.isBlank c = false := by
    rw [← clean_eq_cleanRest]
    exact fun _ => blank_clean
  rw [normal_clean_iff, layered_iff, clean_eq_cleanRest, clearFront_cleanRest_iff hstart hrest]

/-- What the program's reader reads has these in this order, unless a mark of byte order is
left, which reading skips. -/
theorem layered_of_reads {recover : Bool} {root : Element}
    (h : Reads { recover := recover } (some cs) root) :
    Layered cs ∨ (clean cs).head? = some (.char '\ufeff') := by
  obtain ⟨-, chars, hclean, hread⟩ := Parser.reads_iff.mp h
  change readBytes recover _ = _ at hread
  rw [readBytes_encodeChars] at hread
  rw [← normal_clean_iff_layered, normal_clean_iff]
  rcases head?_of_reads hclean hread with hmarkup | hmark
  · have hfirst : (clean cs).head? = some (.char '<') := by
      rw [hclean, head?_ofChars, hmarkup]
      rfl
    exact .inl (clearFront_of_markup hfirst)
  · rw [hclean, head?_ofChars, hmark]
    exact .inr rfl

end Document

open Document

/-- A cleaned text has no carriage return and no white space at its ends.  It begins with
neither a mark nor a control character, and is left as it is when it is cleaned again,
exactly when the text has these at its front in the order in which they are dropped; and
as many cleanings as the text has characters, and one more, leave nothing to drop. -/
theorem cleaned_is_normal_iff_layered (cs : Text) :
    (CodePoint.char '\r' ∉ clean cs ∧ Text.trim (clean cs) = clean cs) ∧
    (clean (clean cs) = clean cs ↔ Normal (clean cs)) ∧
    (Normal (clean cs) ↔ Layered cs) ∧
    ∃ n ≤ cs.length + 1, Normal (clean^[n] cs) := by
  refine ⟨⟨lines_clean cs, Text.stripOf_stripOf⟩, clean_clean_iff, normal_clean_iff_layered, ?_⟩
  have hlength : (clean cs).length ≤ cs.length :=
    length_clean_le.trans dropFront_suffix.length_le
  obtain ⟨k, hk, hnormal⟩ := exists_normal_iterate cs.length hlength
  exact ⟨k + 1, by omega, hnormal⟩

/-- A hidden character before a mark of byte order, and white space before a hidden
character: what comes second is left, and a second cleaning takes it off. -/
theorem front_left_over :
    clean "\x01\ufeff<r/>" = "\ufeff<r/>" ∧
    clean " \x01<r/>" = "\x01<r/>" ∧
    (∀ t ∈ (["\x01\ufeff<r/>", " \x01<r/>"] : List Text), ¬ Normal (clean t) ∧
      clean (clean t) = "<r/>") := by
  refine ⟨by decide, by decide, ?_⟩
  intro t ht
  have hagain : clean (clean t) = "<r/>" ∧ clean t ≠ "<r/>" := by
    revert t
    decide
  refine ⟨fun hnormal => hagain.2 ?_, hagain.1⟩
  rw [← clean_of_normal hnormal, hagain.1]

end XmlHarvest
