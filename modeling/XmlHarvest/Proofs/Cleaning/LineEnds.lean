import XmlHarvest.Proofs.Cleaning
import XmlHarvest.Proofs.Session

/-! # Line ends

A line ends with a line feed, with a carriage return, or with both in the other order.
Cleaning leaves a line feed of each of these, as one pass over the text would; and where
it drops characters at the front, it stops at all of them alike.  So a text may be written
with any of the three: it is cleaned to the same text, is valid alike and is read as the
same document. -/
set_option autoImplicit false

namespace XmlHarvest

namespace Document

def unifyLineEnds : Text → Text
  | .char '\r' :: .char '\n' :: rest => '\n' :: unifyLineEnds rest
  | .char '\r' :: rest => '\n' :: unifyLineEnds rest
  | c :: rest => c :: unifyLineEnds rest
  | [] => []

inductive LineEnd where
  | lineFeed
  | carriageReturn
  | both

namespace LineEnd

def text : LineEnd → Text
  | lineFeed => ['\n']
  | carriageReturn => ['\r']
  | both => ['\r', '\n']

/-- A text with its line feeds written as `e`. -/
def write (e : LineEnd) (cs : Text) : Text :=
  cs.flatMap fun c : CodePoint => if c == '\n' then e.text else [c]

end LineEnd

variable {c : CodePoint} {cs : Text} {p : CodePoint → Bool} {e : LineEnd}

/-! ## One pass and two -/

theorem normalizeLineEnds_cons (hc : c ≠ .char '\r') :
    normalizeLineEnds (c :: cs) = c :: normalizeLineEnds cs := by
  have hfront : CodePoint.char '\r' ∉ [c] := fun h => hc (List.mem_singleton.mp h).symm
  exact normalizeLineEnds_append hfront

theorem normalizeLineEnds_both :
    normalizeLineEnds (.char '\r' :: .char '\n' :: cs) = .char '\n' :: normalizeLineEnds cs := rfl

theorem normalizeLineEnds_return (hnext : cs.head? ≠ some (.char '\n')) :
    normalizeLineEnds (.char '\r' :: cs) = .char '\n' :: normalizeLineEnds cs := by
  have hjoin : joinLineEnds (.char '\r' :: cs) = .char '\r' :: joinLineEnds cs := by
    cases cs with
    | nil => rfl
    | cons d cs =>
      have hd : d ≠ .char '\n' := fun h => hnext (congrArg some h)
      simp [joinLineEnds, hd]
  rw [normalizeLineEnds, hjoin]
  rfl

theorem exists_normalizeLineEnds_return (cs : Text) :
    ∃ rest, normalizeLineEnds (.char '\r' :: cs) = .char '\n' :: rest := by
  by_cases hnext : cs.head? = some (.char '\n')
  · obtain ⟨rest, rfl⟩ := List.head?_eq_some_iff.mp hnext
    exact ⟨_, normalizeLineEnds_both⟩
  · exact ⟨_, normalizeLineEnds_return hnext⟩

theorem normalizeLineEnds_eq_unify (cs : Text) : normalizeLineEnds cs = unifyLineEnds cs := by
  fun_induction unifyLineEnds cs with
  | case1 rest ih => rw [normalizeLineEnds_both, ih]
  | case2 rest hnext ih =>
    have hhead : rest.head? ≠ some (.char '\n') := by
      intro h
      obtain ⟨more, hmore⟩ := List.head?_eq_some_iff.mp h
      exact hnext more hmore
    rw [normalizeLineEnds_return hhead, ih]
  | case3 c rest _ hc ih =>
    have hne : c ≠ .char '\r' := hc
    rw [normalizeLineEnds_cons hne, ih]
  | case4 => rfl

theorem notMem_normalizeLineEnds (cs : Text) : CodePoint.char '\r' ∉ normalizeLineEnds cs := by
  rw [normalizeLineEnds, List.mem_map]
  rintro ⟨c, -, hc⟩
  split at hc
  · cases hc
  · rename_i hne
    subst hc
    exact hne rfl

theorem normalizeLineEnds_of_notMem (h : CodePoint.char '\r' ∉ cs) : normalizeLineEnds cs = cs := by
  have happend : normalizeLineEnds (cs ++ []) = cs ++ normalizeLineEnds [] :=
    normalizeLineEnds_append h
  rwa [List.append_nil, show normalizeLineEnds [] = [] from rfl, List.append_nil] at happend

theorem normalizeLineEnds_normalizeLineEnds :
    normalizeLineEnds (normalizeLineEnds cs) = normalizeLineEnds cs :=
  normalizeLineEnds_of_notMem (notMem_normalizeLineEnds cs)

theorem all_normalizeLineEnds (hp : p (.char '\r') = p (.char '\n')) :
    (normalizeLineEnds cs).all p = cs.all p := by
  rw [normalizeLineEnds_eq_unify]
  fun_induction unifyLineEnds cs with
  | case1 rest ih => simp [hp, ih]
  | case2 rest _ ih => simp [hp, ih]
  | case3 c rest _ _ ih => simp [ih]
  | case4 => rfl

/-! ## Line ends at the front -/

/-- Dropping characters at the front commutes with normalizing the line ends if the two
characters of a line end are dropped alike. -/
theorem dropWhile_normalizeLineEnds (hp : p (.char '\r') = p (.char '\n')) :
    (normalizeLineEnds cs).dropWhile p = normalizeLineEnds (cs.dropWhile p) := by
  simp only [normalizeLineEnds_eq_unify]
  fun_induction unifyLineEnds cs with
  | case1 rest ih =>
    cases hfeed : p (.char '\n') with
    | true => simp [hp, hfeed, ih]
    | false => simp [hp, hfeed, unifyLineEnds]
  | case2 rest hnext ih =>
    cases hfeed : p (.char '\n') with
    | true => simp [hp, hfeed, ih]
    | false => simp [hp, hfeed, unifyLineEnds]
  | case3 c rest _ _ ih =>
    cases hc : p c with
    | true => simp [hc, ih]
    | false => simp [hc, unifyLineEnds]
  | case4 => rfl

theorem prefix_of_normalizeLineEnds {mark : Text} (hmark : CodePoint.char '\n' ∉ mark)
    (h : mark <+: normalizeLineEnds cs) : mark <+: cs := by
  induction mark generalizing cs with
  | nil => exact List.nil_prefix
  | cons a mark ih =>
    obtain ⟨ha, hmore⟩ := List.ne_and_not_mem_of_not_mem_cons hmark
    cases cs with
    | nil => exact h
    | cons c cs =>
      by_cases hc : c = .char '\r'
      · subst hc
        obtain ⟨rest, hrest⟩ := exists_normalizeLineEnds_return cs
        rw [hrest] at h
        exact absurd (List.cons_prefix_cons.mp h).1.symm ha
      · rw [normalizeLineEnds_cons hc] at h
        obtain ⟨rfl, hprefix⟩ := List.cons_prefix_cons.mp h
        exact List.cons_prefix_cons.mpr ⟨rfl, ih hmore hprefix⟩

theorem dropStart_normalizeLineEnds {mark : Text} (hreturn : CodePoint.char '\r' ∉ mark)
    (hfeed : CodePoint.char '\n' ∉ mark) :
    dropStart mark (normalizeLineEnds cs) = normalizeLineEnds (dropStart mark cs) := by
  by_cases h : mark <+: cs
  · obtain ⟨rest, rfl⟩ := h
    rw [normalizeLineEnds_append hreturn, dropStart_append, dropStart_append]
  · have hnot : ¬ mark <+: normalizeLineEnds cs := fun hprefix =>
      h (prefix_of_normalizeLineEnds hfeed hprefix)
    rw [dropStart_of_no_mark hnot, dropStart_of_no_mark h]

theorem dropFront_normalizeLineEnds :
    dropFront (normalizeLineEnds cs) = normalizeLineEnds (dropFront cs) := by
  rw [dropFront, dropStart_normalizeLineEnds (by decide) (by decide),
    dropStart_normalizeLineEnds (by decide) (by decide), dropWhile_normalizeLineEnds (by decide)]
  rfl

/-- Texts with the same lines are cleaned to the same text. -/
theorem clean_normalizeLineEnds : clean (normalizeLineEnds cs) = clean cs := by
  rw [clean_eq, clean_eq, dropFront_normalizeLineEnds, normalizeLineEnds_normalizeLineEnds]

/-! ## Line ends written in another way -/

namespace LineEnd

theorem head?_write_return : (carriageReturn.write cs).head? ≠ some (.char '\n') := by
  cases cs with
  | nil => simp [write]
  | cons c cs =>
    by_cases hc : c = .char '\n'
    · simp [write, LineEnd.text, hc]
    · simp [write, hc]

theorem normalizeLineEnds_write (h : CodePoint.char '\r' ∉ cs) :
    normalizeLineEnds (e.write cs) = cs := by
  induction cs with
  | nil => rfl
  | cons c cs ih =>
    obtain ⟨hc, hcs⟩ := List.ne_and_not_mem_of_not_mem_cons h
    by_cases hfeed : c = .char '\n'
    · subst hfeed
      cases e with
      | lineFeed => exact (normalizeLineEnds_cons (by decide)).trans (congrArg _ (ih hcs))
      | carriageReturn =>
        exact (normalizeLineEnds_return head?_write_return).trans (congrArg _ (ih hcs))
      | both => exact normalizeLineEnds_both.trans (congrArg _ (ih hcs))
    · have hkept : e.write (c :: cs) = c :: e.write cs := by simp [write, hfeed]
      rw [hkept, normalizeLineEnds_cons (Ne.symm hc), ih hcs]

end LineEnd
end Document

namespace Parser

open Document

variable {p : Parser} {t t' : Text} {id : Option Text}

theorem isBlank_of_lines (h : normalizeLineEnds t' = normalizeLineEnds t) :
    Document.isBlank t' = Document.isBlank t := by
  have hboth : Text.isBlank (.char '\r') = Text.isBlank (.char '\n') := rfl
  rw [Document.isBlank, Document.isBlank, Text.isBlankText, Text.isBlankText,
    ← all_normalizeLineEnds hboth, h, all_normalizeLineEnds hboth]

theorem clean_of_lines (h : normalizeLineEnds t' = normalizeLineEnds t) : clean t' = clean t := by
  rw [← clean_normalizeLineEnds, h, clean_normalizeLineEnds]

theorem validate_of_lines (h : normalizeLineEnds t' = normalizeLineEnds t) :
    p.validate (some t') = p.validate (some t) := by
  simp only [validate, isWellFormed, isBlank_of_lines h, clean_of_lines h]

/-- An error holds the start of the text as it is written; its message does not. -/
theorem parse_of_lines (h : normalizeLineEnds t' = normalizeLineEnds t) :
    (p.parse (some t') id).2 = (p.parse (some t) id).2 ∧
      (p.parse (some t') id).1.mapError Failure.message =
        (p.parse (some t) id).1.mapError Failure.message := by
  simp only [parse, isBlank_of_lines h]
  split
  · exact ⟨rfl, rfl⟩
  · refine ⟨rfl, ?_⟩
    have hread : Parser.read { p with parsed := p.parsed + 1 } = p.read := read_of_reset rfl
    rw [readText, readText, hread, clean_of_lines h]
    cases p.read (clean t) with
    | error failure => rfl
    | ok reading =>
      cases reading with
      | root e => rfl
      | rootless => rfl
      | refused detail => rfl

end Parser

/-- Line ends are normalized as by one pass over the text; so a text without carriage
returns is cleaned to the same text whichever line end its line feeds are written as, and
a parser judges it alike, reads the same document or fails with the same message. -/
theorem line_ends_read_alike :
    (∀ cs, Document.normalizeLineEnds cs = Document.unifyLineEnds cs) ∧
    ∀ (e : Document.LineEnd) (t : Text), CodePoint.char '\r' ∉ t →
      Document.clean (e.write t) = Document.clean t ∧
      ∀ p : Parser, p.validate (some (e.write t)) = p.validate (some t) ∧
        ∀ id, (p.parse (some (e.write t)) id).2 = (p.parse (some t) id).2 ∧
          (p.parse (some (e.write t)) id).1.mapError Failure.message =
            (p.parse (some t) id).1.mapError Failure.message := by
  constructor
  · intro cs
    exact Document.normalizeLineEnds_eq_unify cs
  · intro e t ht
    have hlines : Document.normalizeLineEnds (e.write t) = Document.normalizeLineEnds t := by
      rw [Document.LineEnd.normalizeLineEnds_write ht, Document.normalizeLineEnds_of_notMem ht]
    refine ⟨Parser.clean_of_lines hlines, ?_⟩
    intro p
    refine ⟨Parser.validate_of_lines hlines, ?_⟩
    intro id
    exact Parser.parse_of_lines hlines

/-- A document with a line end at its front and one in its text. -/
theorem note_reads_alike :
    CodePoint.char '\r' ∉ ("\n<r>a\nb</r>" : Text) ∧
    (Parser.validate { recover := false } (some "\r\n<r>a\r\nb</r>")).1 = .ok true ∧
    (Parser.parse { recover := false } (some "\r\n<r>a\r\nb</r>") none).1 =
      .ok ⟨"r", [.text "a\nb"]⟩ := by
  have hlines : CodePoint.char '\r' ∉ ("\n<r>a\nb</r>" : Text) := by decide
  have hreads : Reads { recover := false } (some "\n<r>a\nb</r>") ⟨"r", [.text "a\nb"]⟩ :=
    Parser.reads_of_read "<r>a\nb</r>".toList (by decide +kernel) (by decide +kernel)
      (by decide +kernel)
  have hsound : ¬ Frayed (some "\n<r>a\nb</r>") := by
    rintro ⟨t, ⟨⟩, h⟩
    revert h
    decide +kernel
  have hvalid : (Parser.validate { recover := false } (some "\n<r>a\nb</r>")).1 = .ok true :=
    Parser.validate_eq_true.mpr ⟨⟨_, hreads⟩, hsound⟩
  have hroot : (Parser.parse { recover := false } (some "\n<r>a\nb</r>") none).1 =
      .ok ⟨"r", [.text "a\nb"]⟩ := Parser.parse_eq_ok.mpr hreads
  obtain ⟨-, hparser⟩ := line_ends_read_alike.2 .both "\n<r>a\nb</r>" hlines
  obtain ⟨hvalidate, hparse⟩ := hparser { recover := false }
  have hwritten : Document.LineEnd.both.write "\n<r>a\nb</r>" = "\r\n<r>a\r\nb</r>" := by
    decide
  rw [hwritten] at hvalidate hparse
  refine ⟨hlines, ?_, ?_⟩
  · rw [hvalidate, hvalid]
  · rw [← Outcome.mapError_eq_ok, (hparse none).2, Outcome.mapError_eq_ok, hroot]

end XmlHarvest
