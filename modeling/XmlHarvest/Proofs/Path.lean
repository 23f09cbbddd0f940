import XmlHarvest.Path
import XmlHarvest.Proofs.Outcome
import XmlHarvest.Proofs.Text.Split
import XmlHarvest.Proofs.Text.Trim

/-! # Which texts write a path

A path is written as its segments with slashes between them.  Slashes around this
form, and white space around those, do not count; all other texts write no path. -/
set_option autoImplicit false

namespace XmlHarvest.Path

/-- A text writes a path as the path's own written form between slashes, and these
between white space. -/
def WrittenBy (p : Path) (raw : Text) : Prop :=
  ∃ blanks slashes slashes' blanks', raw =
      blanks ++ ((slashes ++ (p.text ++ slashes')) ++ blanks') ∧
    (∀ c ∈ blanks, Text.isBlank c = true) ∧ (∀ c ∈ blanks', Text.isBlank c = true) ∧
    (∀ c ∈ slashes, c = '/') ∧ ∀ c ∈ slashes', c = '/'

variable {p : Path} {raw : Text} {segments : List Text} {s w : Text} {c : CodePoint}

section Segments

theorem ne_nil_of_plain (h : isPlainTag s = true) : s ≠ [] := by
  rintro rfl
  exact absurd h (by decide)

theorem not_reserved_of_plain (h : isPlainTag s = true) (hc : c ∈ s) :
    isReservedInTag c = false := by
  simp only [isPlainTag, Bool.and_eq_true, Bool.not_eq_true', List.any_eq_false] at h
  exact Bool.eq_false_iff.mpr (h.2 c hc)

theorem segmentFault?_eq_none :
    segmentFault? w segments = none ↔ ∀ s ∈ segments, isPlainTag s = true := by
  constructor
  · exact plain_of_segmentFault?
  · intro h
    induction segments with
    | nil => rfl
    | cons s rest ih =>
      have hs : isPlainTag s = true := h s List.mem_cons_self
      have hrest : ∀ t ∈ rest, isPlainTag t = true := fun t ht => h t (List.mem_cons_of_mem s ht)
      simp [segmentFault?, ne_nil_of_plain hs, hs, ih hrest]

theorem ofSegments_eq_ok : ofSegments segments = .ok p ↔ p.segments = segments := by
  constructor
  · intro h
    unfold ofSegments at h
    split at h
    · cases h
    · split at h
      · cases h
      · cases h
        rfl
  · rintro rfl
    unfold ofSegments
    rw [dif_neg p.nonempty]
    split
    · rename_i fault hfault
      rw [segmentFault?_eq_none.mpr p.plain] at hfault
      cases hfault
    · rfl

end Segments

theorem text_eq : p.text = Text.joinWith [CodePoint.char '/'] p.segments := rfl

theorem slash_notMem (h : s ∈ p.segments) : CodePoint.char '/' ∉ s := by
  intro hslash
  exact absurd (not_reserved_of_plain (p.plain s h) hslash) (by decide)

theorem isBlank_of_mem_text (h : c ∈ p.text) : Text.isBlank c = false := by
  rw [text_eq] at h
  rcases Text.mem_joinWith h with rfl | ⟨s, hs, hc⟩
  · decide
  · have hreserved := not_reserved_of_plain (p.plain s hs) hc
    simp only [isReservedInTag, Bool.or_eq_false_iff] at hreserved
    exact hreserved.2

theorem ne_slash_of_mem (h : s ∈ p.segments) (hc : c ∈ s) : (c == CodePoint.char '/') = false := by
  have hne : c ≠ CodePoint.char '/' := by
    rintro rfl
    exact slash_notMem h hc
  simpa using hne

theorem ne_nil_of_mem_segments (h : s ∈ p.segments) : s ≠ [] := ne_nil_of_plain (p.plain s h)

theorem text_ne_nil : p.text ≠ [] := by
  rw [text_eq]
  exact Text.joinWith_ne_nil p.nonempty fun _ => ne_nil_of_mem_segments

theorem head?_text (h : p.text.head? = some c) : (c == CodePoint.char '/') = false := by
  rw [text_eq] at h
  obtain ⟨s, hs, hc⟩ := Text.head?_joinWith (fun _ => ne_nil_of_mem_segments) h
  exact ne_slash_of_mem hs hc

theorem getLast?_text (h : p.text.getLast? = some c) : (c == CodePoint.char '/') = false := by
  rw [text_eq] at h
  obtain ⟨s, hs, hc⟩ := Text.getLast?_joinWith (fun _ => ne_nil_of_mem_segments) h
  exact ne_slash_of_mem hs hc

theorem isBlank_slash (hc : c = '/') : Text.isBlank c = false := by
  subst hc
  decide

/-- The segments that a text writes are those of the path that it writes. -/
theorem segmentsOf_of_writtenBy (h : p.WrittenBy raw) : segmentsOf raw = p.segments := by
  obtain ⟨blanks, slashes, slashes', blanks', hraw, hblanks, hblanks', hslashes, hslashes'⟩ := h
  have hvisible : ∀ c ∈ slashes ++ (p.text ++ slashes'), Text.isBlank c = false := by
    intro c hc
    rw [List.mem_append, List.mem_append] at hc
    rcases hc with hc | hc | hc
    · exact isBlank_slash (hslashes c hc)
    · exact isBlank_of_mem_text hc
    · exact isBlank_slash (hslashes' c hc)
  have htrim : Text.trim raw = slashes ++ (p.text ++ slashes') := by
    have hne : slashes ++ (p.text ++ slashes') ≠ [] := by
      intro hnil
      have hinner := (List.append_eq_nil_iff.mp hnil).2
      exact text_ne_nil (List.append_eq_nil_iff.mp hinner).1
    rw [hraw]
    refine Text.stripOf_enclosed hblanks hblanks' hne ?_ ?_
    · exact fun d hd => hvisible d (List.mem_of_head? hd)
    · exact fun d hd => hvisible d (List.mem_of_getLast? hd)
  have hstrip : Text.stripOf (· == CodePoint.char '/') (slashes ++ (p.text ++ slashes')) =
      p.text := by
    refine Text.stripOf_enclosed ?_ ?_ text_ne_nil (fun d => head?_text) (fun d => getLast?_text)
    · simpa using hslashes
    · simpa using hslashes'
  rw [segmentsOf, htrim, hstrip, text_eq]
  exact Text.splitOn_joinWith p.nonempty fun _ => slash_notMem

theorem writtenBy_of_segmentsOf (h : segmentsOf raw = p.segments) : p.WrittenBy raw := by
  obtain ⟨blanks, blanks', hraw, hblanks, hblanks'⟩ :=
    Text.stripOf_append Text.isBlank raw
  obtain ⟨slashes, slashes', htrim, hslashes, hslashes'⟩ :=
    Text.stripOf_append (· == CodePoint.char '/') (Text.trim raw)
  have htext : Text.stripOf (· == CodePoint.char '/') (Text.trim raw) = p.text := by
    rw [text_eq, ← h, segmentsOf, Text.joinWith_splitOn]
  rw [htext] at htrim
  refine ⟨blanks, slashes, slashes', blanks', ?_, hblanks, hblanks', ?_, ?_⟩
  · rw [← htrim]
    exact hraw
  · simpa using hslashes
  · simpa using hslashes'

theorem not_blank_of_writtenBy (h : p.WrittenBy raw) : Text.isBlankText raw = false := by
  obtain ⟨blanks, slashes, slashes', blanks', hraw, -⟩ := h
  obtain ⟨c, more, htext⟩ := List.exists_cons_of_ne_nil (text_ne_nil (p := p))
  have hc : Text.isBlank c = false := isBlank_of_mem_text (p := p) (by simp [htext])
  rw [Text.isBlankText, hraw, htext]
  simp [hc]

/-- A text is read as the path that it writes, and only as that. -/
theorem parse_eq_ok : parse raw = .ok p ↔ p.WrittenBy raw := by
  constructor
  · intro h
    rw [parse] at h
    split at h
    · cases h
    · exact writtenBy_of_segmentsOf (ofSegments_eq_ok.mp h).symm
  · intro h
    have hnotblank : ¬ Text.isBlankText raw = true := by
      rw [not_blank_of_writtenBy h]
      exact Bool.false_ne_true
    rw [parse, if_neg hnotblank]
    exact ofSegments_eq_ok.mpr (segmentsOf_of_writtenBy h).symm

theorem lift_eq_ok {α : Type} {x : Except PathFault α} {a : α} :
    lift x = .ok a ↔ x = .ok a := by
  cases x with
  | ok b => simp [lift]
  | error fault => simp [lift, Outcome.raise]

/-- Only texts write paths. -/
theorem ofValue_eq_ok {v : Value} :
    ofValue v = .ok p ↔ ∃ raw, v = .scalar (.str raw) ∧ p.WrittenBy raw := by
  have hother : ∀ shown : Outcome Text,
      (shown >>= fun s => lift (.error (.notText s)) : Outcome Path) ≠ .ok p := by
    intro shown h
    obtain ⟨s, -, hs⟩ := (Outcome.bind_eq_ok _ _ _).mp h
    cases lift_eq_ok.mp hs
  unfold ofValue
  split
  · simp [lift_eq_ok, parse_eq_ok]
  · rename_i hv
    constructor
    · intro h
      exact absurd h (hother _)
    · rintro ⟨raw, rfl, -⟩
      exact absurd rfl (hv raw)

def ofTag (s : Text) (h : isPlainTag s = true) : Path :=
  ⟨[s], List.cons_ne_nil s [], List.forall_mem_singleton.mpr h⟩

theorem ofTag_writtenBy (h : isPlainTag s = true) : (ofTag s h).WrittenBy s :=
  ⟨[], [], [], [], by simp [ofTag, text, written, Text.joinWith], by simp⟩

end XmlHarvest.Path
