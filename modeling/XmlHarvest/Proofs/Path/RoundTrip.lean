import XmlHarvest.Proofs.Path

/-! # Reading paths and writing them

A path is read from its written form.  What a text leaves without the white space around
it and the slashes around that is the written form of the path that it is read as, so
two texts are read as one path when they leave the same; and a text is read at all when
what it leaves is a sequence of plain segments with slashes between them. -/
set_option autoImplicit false

namespace XmlHarvest

/-- What is left of a text between characters satisfying `p`; it has none of them at its
ends. -/
structure Text.Bare (p : CodePoint → Bool) (cs bare : Text) : Prop where
  between : ∃ front back, cs = front ++ (bare ++ back) ∧ (∀ c ∈ front, p c = true) ∧
    ∀ c ∈ back, p c = true
  head : ∀ c, bare.head? = some c → p c = false
  last : ∀ c, bare.getLast? = some c → p c = false

theorem Text.bare_iff {p : CodePoint → Bool} {cs bare : Text} :
    Text.Bare p cs bare ↔ bare = Text.stripOf p cs := by
  constructor
  · rintro ⟨⟨front, back, rfl, hfront, hback⟩, hhead, hlast⟩
    by_cases hbare : bare = []
    · subst hbare
      have hall : ∀ c ∈ front ++ ([] ++ back), p c = true := by
        intro c hc
        rw [List.nil_append, List.mem_append] at hc
        exact hc.elim (hfront c) (hback c)
      rw [stripOf, List.dropWhile_eq_nil_iff.mpr hall]
      rfl
    · exact (stripOf_enclosed hfront hback hbare hhead hlast).symm
  · rintro rfl
    exact ⟨stripOf_append p cs, fun _ => stripOf_head?, fun _ => stripOf_getLast?⟩

namespace Path

structure IsSegment (s : Text) : Prop where
  nonempty : s ≠ []
  notStep : s ≠ "." ∧ s ≠ ".."
  unreserved : ∀ c ∈ s, c ∉ ("@:[]*()/" : Text) ∧ Text.isBlank c = false

/-- Segments, at least one, with a slash between each two of them. -/
def IsWritten (cs : Text) : Prop :=
  ∃ segments, segments ≠ [] ∧ cs = Text.joinWith "/" segments ∧ ∀ s ∈ segments, IsSegment s

/-- What a text leaves without the white space around it and then without the slashes
around what is left. -/
def Leaves (raw : Text) (cs : Text) : Prop :=
  ∃ trimmed, Text.Bare Text.isBlank raw trimmed ∧ Text.Bare (· == .char '/') trimmed cs

def core (raw : Text) : Text := Text.stripOf (· == .char '/') (Text.trim raw)

variable {raw : Text} {cs : Text} {p : Path}

theorem leaves_iff : Leaves raw cs ↔ cs = core raw := by
  simp only [Leaves, Text.bare_iff, exists_eq_left]
  rfl

theorem isPlainTag_iff {s : Text} : isPlainTag s = true ↔ IsSegment s := by
  have hreserved : ∀ c, isReservedInTag c = false ↔
      c ∉ ("@:[]*()/" : Text) ∧ Text.isBlank c = false := by
    intro c
    rw [isReservedInTag, Bool.or_eq_false_iff]
    simp
  simp only [isPlainTag, Bool.and_eq_true, bne_iff_ne, Bool.not_eq_true', List.any_eq_false,
    Bool.not_eq_true, hreserved, Text.ofString_empty]
  constructor
  · rintro ⟨⟨⟨h, hdot⟩, hdots⟩, hchars⟩
    exact ⟨h, ⟨hdot, hdots⟩, hchars⟩
  · rintro ⟨h, ⟨hdot, hdots⟩, hchars⟩
    exact ⟨⟨⟨h, hdot⟩, hdots⟩, hchars⟩

/-- A text is read as the path whose written form it leaves. -/
theorem parse_eq_ok_iff_core : parse raw = .ok p ↔ p.text = core raw := by
  rw [parse_eq_ok, text_eq]
  constructor
  · intro h
    rw [← segmentsOf_of_writtenBy h, segmentsOf, Text.joinWith_splitOn, core]
  · intro h
    apply writtenBy_of_segmentsOf
    rw [segmentsOf, ← core, ← h]
    exact Text.splitOn_joinWith p.nonempty fun _ => slash_notMem

/-- Neither white space nor slashes stand at the ends of a written path. -/
theorem core_text (p : Path) : core p.text = p.text := by
  have htrim : Text.trim p.text = p.text :=
    Text.stripOf_of_ends (fun c hc => isBlank_of_mem_text (List.mem_of_head? hc))
      (fun c hc => isBlank_of_mem_text (List.mem_of_getLast? hc))
  rw [core, htrim]
  exact Text.stripOf_of_ends (fun c => head?_text) (fun c => getLast?_text)

theorem parse_text (p : Path) : parse p.text = .ok p :=
  parse_eq_ok_iff_core.mpr (core_text p).symm

/-- The written forms of paths are the sequences of segments. -/
theorem isWritten_iff : IsWritten cs ↔ ∃ p : Path, p.text = cs := by
  constructor
  · rintro ⟨segments, hne, rfl, hsegments⟩
    have hplain : ∀ s ∈ segments, isPlainTag s = true := by
      intro s hs
      rw [isPlainTag_iff]
      exact hsegments s hs
    exact ⟨⟨segments, hne, hplain⟩, rfl⟩
  · rintro ⟨p, rfl⟩
    exact ⟨p.segments, p.nonempty, text_eq, fun s hs => isPlainTag_iff.mp (p.plain s hs)⟩

theorem exists_parse_iff : (∃ p, parse raw = .ok p) ↔ IsWritten (core raw) := by
  rw [isWritten_iff]
  simp only [parse_eq_ok_iff_core]

/-- Every path is read back from its written form.  A text writes a path exactly when what
it leaves is a sequence of plain segments; this is then the path's written form, which
writes the same path; and another text writes that path exactly when it leaves the same. -/
theorem paths_round_trip :
    (∀ segments p, ofSegments segments = .ok p →
      p.segments = segments ∧ parse p.text = .ok p) ∧
    (∀ raw, ∃ cs, (∀ cs', Leaves raw cs' ↔ cs' = cs) ∧
      ((∃ p, parse raw = .ok p) ↔ IsWritten cs) ∧
      ∀ p, parse raw = .ok p → p.text = cs ∧ parse p.text = .ok p) ∧
    ∀ raw raw' cs cs' p, Leaves raw cs → Leaves raw' cs' → parse raw = .ok p →
      (parse raw' = .ok p ↔ cs' = cs) := by
  refine ⟨?_, ?_, ?_⟩
  · intro segments p h
    exact ⟨ofSegments_eq_ok.mp h, parse_text p⟩
  · intro raw
    refine ⟨core raw, fun cs' => leaves_iff, exists_parse_iff, ?_⟩
    intro p h
    exact ⟨parse_eq_ok_iff_core.mp h, parse_text p⟩
  · intro raw raw' cs cs' p hcs hcs' h
    rw [leaves_iff] at hcs hcs'
    rw [parse_eq_ok_iff_core] at h ⊢
    rw [hcs, hcs', h, eq_comm]

example : parse " \t/catalog//" = .ok (ofTag "catalog" (by decide +kernel)) := by decide +kernel

end Path
end XmlHarvest
