import XmlHarvest.Proofs.Number.Leading
import XmlHarvest.Text.Case

/-! # Texts with the same numbers

Letter case and the width of white space have no part in how a number is written: neither a
digit nor a sign, a point or white space has another case, nor is one of them the other case
of a letter.  So texts that differ in nothing else start with the same number and have the
same digits. -/
set_option autoImplicit false

namespace XmlHarvest.Text

def isMark (c : CodePoint) : Bool := isDigit c || c == '.' || c == '+' || c == '-'

/-- Neither part of a numeral nor white space. -/
def isOther (c : CodePoint) : Bool := !isMark c && !isBlank c

/-- What stands between numerals. -/
inductive Filler : (CodePoint → Bool) → Prop
  | blank : Filler isBlank
  | other : Filler isOther

/-- Texts that have the same marks, and between them fillers of the same kinds. -/
inductive Reworded : Text → Text → Prop
  | nil : Reworded [] []
  | mark {c : CodePoint} {cs ds : Text} (marked : isMark c = true) (rest : Reworded cs ds) :
      Reworded (c :: cs) (c :: ds)
  | filler {kind : CodePoint → Bool} {run run' cs ds : Text} (fills : Filler kind)
      (nonempty : run ≠ []) (nonempty' : run' ≠ []) (all : ∀ c ∈ run, kind c = true)
      (all' : ∀ c ∈ run', kind c = true) (rest : Reworded cs ds) : Reworded (run ++ cs) (run' ++ ds)

section Reading

variable {c : CodePoint} {cs ds cs' ds' run run' : Text} {p kind : CodePoint → Bool}

theorem isBlank_of_isMark (h : isMark c = true) : isBlank c = false := by
  simp only [isMark, Bool.or_eq_true, beq_iff_eq] at h
  rcases h with ((h | rfl) | rfl) | rfl
  · exact isBlank_of_isDigit h
  all_goals decide

theorem isOther_iff : isOther c = true ↔ isMark c = false ∧ isBlank c = false := by
  simp [isOther]

theorem Filler.isMark_eq_false (h : Filler kind) (hc : kind c = true) : isMark c = false := by
  cases h with
  | other => exact (isOther_iff.mp hc).1
  | blank =>
    rw [Bool.eq_false_iff]
    intro hmark
    rw [isBlank_of_isMark hmark] at hc
    cases hc

/-- Of a run nothing is taken that is not in it. -/
theorem takeWhile_run (hne : run ≠ []) (hrun : ∀ c ∈ run, p c = false) (cs : Text) :
    (run ++ cs).takeWhile p = [] ∧ (run ++ cs).dropWhile p = run ++ cs := by
  obtain ⟨c, more, rfl⟩ := List.exists_cons_of_ne_nil hne
  have hc : p c = false := hrun c List.mem_cons_self
  simp [hc]

theorem splitSign_of_head? (h : ∀ c ∈ cs.head?, c ≠ '+' ∧ c ≠ '-') : splitSign cs = (false, cs) :=
  splitSign_append .none h

theorem isMark_head_run (hkind : Filler kind) (hne : run ≠ []) (hrun : ∀ c ∈ run, kind c = true)
    (hc : c ∈ (run ++ cs).head?) : isMark c = false := by
  rw [List.head?_append_of_ne_nil _ hne] at hc
  exact hkind.isMark_eq_false (hrun c (List.mem_of_mem_head? hc))

theorem splitSign_run (hkind : Filler kind) (hne : run ≠ []) (hrun : ∀ c ∈ run, kind c = true)
    (cs : Text) : splitSign (run ++ cs) = (false, run ++ cs) := by
  apply splitSign_of_head?
  intro c hc
  have hmark := isMark_head_run hkind hne hrun hc
  constructor <;> rintro rfl <;> exact absurd hmark (by decide)

theorem pointed_of_head? (h : ∀ c ∈ cs.head?, c ≠ '.') : pointed cs = [] := by
  unfold pointed
  split
  · exact absurd rfl (h '.' rfl)
  · rfl

theorem pointed_run (hkind : Filler kind) (hne : run ≠ []) (hrun : ∀ c ∈ run, kind c = true)
    (cs : Text) : pointed (run ++ cs) = [] := by
  apply pointed_of_head?
  intro c hc
  have hmark := isMark_head_run hkind hne hrun hc
  rintro rfl
  exact absurd hmark (by decide)

namespace Reworded

theorem of_filler (hkind : Filler kind) (hne : run ≠ []) (hne' : run' ≠ [])
    (h : ∀ c ∈ run, kind c = true) (h' : ∀ c ∈ run', kind c = true) : Reworded run run' := by
  have hall := filler hkind hne hne' h h' nil
  rwa [List.append_nil, List.append_nil] at hall

/-- One character for itself. -/
theorem single (c : CodePoint) : Reworded [c] [c] := by
  have hself : ∀ kind, Filler kind → kind c = true → Reworded [c] [c] := fun kind hkind hc =>
    of_filler hkind (List.cons_ne_nil c []) (List.cons_ne_nil c []) (by simpa) (by simpa)
  by_cases hmark : isMark c = true
  · exact mark hmark nil
  · by_cases hblank : isBlank c = true
    · exact hself isBlank .blank hblank
    · exact hself isOther .other (isOther_iff.mpr ⟨by simpa using hmark, by simpa using hblank⟩)

theorem append (h : Reworded cs ds) (h' : Reworded cs' ds') : Reworded (cs ++ cs') (ds ++ ds') := by
  induction h with
  | nil => exact h'
  | mark hmark _ ih => exact mark hmark ih
  | filler hkind hne hne' hall hall' _ ih =>
    rw [List.append_assoc, List.append_assoc]
    exact filler hkind hne hne' hall hall' ih

theorem reverse (h : Reworded cs ds) : Reworded cs.reverse ds.reverse := by
  induction h with
  | nil => exact nil
  | mark hmark _ ih =>
    rw [List.reverse_cons, List.reverse_cons]
    exact ih.append (single _)
  | filler hkind hne hne' hall hall' _ ih =>
    rw [List.reverse_append, List.reverse_append]
    exact ih.append (of_filler hkind (List.reverse_ne_nil_iff.mpr hne)
      (List.reverse_ne_nil_iff.mpr hne') (by simpa using hall) (by simpa using hall'))

theorem dropBlanks (h : Reworded cs ds) :
    Reworded (cs.dropWhile isBlank) (ds.dropWhile isBlank) := by
  induction h with
  | nil => exact nil
  | mark hmark hrest _ =>
    have hblank := isBlank_of_isMark hmark
    simp only [List.dropWhile_cons, hblank, Bool.false_eq_true, if_false]
    exact mark hmark hrest
  | filler hkind hne hne' hall hall' hrest ih =>
    cases hkind with
    | blank =>
      rw [List.dropWhile_append_of_pos hall, List.dropWhile_append_of_pos hall']
      exact ih
    | other =>
      rw [(takeWhile_run hne (fun c hc => (isOther_iff.mp (hall c hc)).2) _).2,
        (takeWhile_run hne' (fun c hc => (isOther_iff.mp (hall' c hc)).2) _).2]
      exact filler .other hne hne' hall hall' hrest

theorem trim (h : Reworded cs ds) : Reworded (trim cs) (trim ds) :=
  h.dropBlanks.reverse.dropBlanks.reverse

/-- They have the same marks of any kind. -/
theorem filter_eq (h : Reworded cs ds) (hp : ∀ c, isMark c = false → p c = false) :
    cs.filter p = ds.filter p := by
  have hnone : ∀ {kind : CodePoint → Bool} {run : Text}, Filler kind →
      (∀ c ∈ run, kind c = true) → run.filter p = [] := by
    intro kind run hkind hall
    rw [List.filter_eq_nil_iff]
    intro c hc
    rw [hp c (hkind.isMark_eq_false (hall c hc))]
    exact Bool.false_ne_true
  induction h with
  | nil => rfl
  | mark _ _ ih => rw [List.filter_cons, List.filter_cons, ih]
  | filler hkind _ _ hall hall' _ ih =>
    rw [List.filter_append, List.filter_append, hnone hkind hall, hnone hkind hall', ih]

theorem isDigit_eq_false (c : CodePoint) (h : isMark c = false) : isDigit c = false := by
  simp only [isMark, Bool.or_eq_false_iff] at h
  exact h.1.1.1

/-- They start with the same digits, and go on alike. -/
theorem digits (h : Reworded cs ds) : cs.takeWhile isDigit = ds.takeWhile isDigit ∧
    Reworded (cs.dropWhile isDigit) (ds.dropWhile isDigit) := by
  induction h with
  | nil => exact ⟨rfl, nil⟩
  | @mark c _ _ hmark hrest ih =>
    simp only [List.takeWhile_cons, List.dropWhile_cons]
    cases isDigit c with
    | true => exact ⟨congrArg (c :: ·) ih.1, ih.2⟩
    | false => exact ⟨rfl, mark hmark hrest⟩
  | filler hkind hne hne' hall hall' hrest _ =>
    obtain ⟨htake, hdrop⟩ := takeWhile_run hne
      (fun c hc => isDigit_eq_false c (hkind.isMark_eq_false (hall c hc))) _
    obtain ⟨htake', hdrop'⟩ := takeWhile_run hne'
      (fun c hc => isDigit_eq_false c (hkind.isMark_eq_false (hall' c hc))) _
    rw [htake, htake', hdrop, hdrop']
    exact ⟨rfl, filler hkind hne hne' hall hall' hrest⟩

theorem splitSign (h : Reworded cs ds) : (splitSign cs).1 = (splitSign ds).1 ∧
    Reworded (XmlHarvest.splitSign cs).2 (XmlHarvest.splitSign ds).2 := by
  cases h with
  | nil => exact ⟨rfl, nil⟩
  | @mark c cs ds hmark hrest =>
    by_cases hminus : c = '-'
    · rw [hminus]
      exact ⟨rfl, hrest⟩
    · by_cases hplus : c = '+'
      · rw [hplus]
        exact ⟨rfl, hrest⟩
      · have hsign : ∀ more, XmlHarvest.splitSign (c :: more) = (false, c :: more) := by
          intro more
          apply splitSign_of_head?
          rintro d ⟨⟩
          exact ⟨hplus, hminus⟩
        rw [hsign, hsign]
        exact ⟨rfl, mark hmark hrest⟩
  | filler hkind hne hne' hall hall' hrest =>
    rw [splitSign_run hkind hne hall, splitSign_run hkind hne' hall']
    exact ⟨rfl, filler hkind hne hne' hall hall' hrest⟩

theorem fractionRun_eq (h : Reworded cs ds) : fractionRun cs = fractionRun ds := by
  have hrest := h.digits.2
  unfold fractionRun
  generalize cs.dropWhile isDigit = rest at hrest
  generalize ds.dropWhile isDigit = rest' at hrest
  cases hrest with
  | nil => rfl
  | @mark c _ _ _ hrest =>
    by_cases hpoint : c = '.'
    · rw [hpoint]
      exact hrest.digits.1
    · rw [pointed_of_head? (by simpa using hpoint), pointed_of_head? (by simpa using hpoint)]
  | filler hkind hne hne' hall hall' _ =>
    rw [pointed_run hkind hne hall, pointed_run hkind hne' hall']

/-- They start with the same numeral. -/
theorem leadingDecimal?_eq (h : Reworded cs ds) : leadingDecimal? cs = leadingDecimal? ds := by
  obtain ⟨hsign, hbody⟩ := h.splitSign
  have hwhole : wholeRun (XmlHarvest.splitSign cs).2 = wholeRun (XmlHarvest.splitSign ds).2 :=
    hbody.digits.1
  rw [XmlHarvest.leadingDecimal?_eq, XmlHarvest.leadingDecimal?_eq, hsign, hwhole,
    hbody.fractionRun_eq]

end Reworded
end Reading

/-! ## Letter case -/

def numericRanges : List (Nat × Nat) :=
  zeros.map (fun z => (z, z + 9)) ++ [(9, 13), (28, 32), (0x2B, 0x2B), (0x2D, 0x2E), (0x85, 0x85),
    (0xA0, 0xA0), (0x1680, 0x1680), (0x2000, 0x200A), (0x2028, 0x2029), (0x202F, 0x202F),
    (0x205F, 0x205F), (0x3000, 0x3000)]

def NumericCode (n : Nat) : Prop := ∃ r ∈ numericRanges, r.1 ≤ n ∧ n ≤ r.2

instance (n : Nat) : Decidable (NumericCode n) :=
  decidable_of_iff (numericRanges.any (fun r => r.1.ble n && n.ble r.2) = true)
    (by simp [NumericCode])

def isApart (first last : Nat) : Bool :=
  numericRanges.all fun range => last.blt range.1 || range.2.blt first

/-- A run of a table of cases takes other characters to other characters. -/
structure CaseRun.Aside (r : CaseRun) : Prop where
  apart : isApart r.first r.last = true
  apart' : isApart (r.first + r.shift).toNat (r.last + r.shift).toNat = true
  valid : 0 ≤ r.first + r.shift

section Case

variable {c : CodePoint} {n : Nat} {ns : List Nat} {runs : List CaseRun} {cs : Text}

theorem isDigit_iff_ranges : isDigit c = true ↔
    ∃ r ∈ zeros.map fun z => (z, z + 9), r.1 ≤ c.toNat ∧ c.toNat ≤ r.2 := by
  rw [isDigit_iff]
  constructor
  · rintro ⟨z, hz, hlow, hhigh⟩
    exact ⟨_, List.mem_map_of_mem hz, hlow, Nat.le_of_lt_succ hhigh⟩
  · rintro ⟨r, hr, hlow, hhigh⟩
    obtain ⟨z, hz, rfl⟩ := List.mem_map.mp hr
    exact ⟨z, hz, hlow, Nat.lt_succ_of_le hhigh⟩

theorem numericCode_iff : NumericCode c.toNat ↔ isMark c = true ∨ isBlank c = true := by
  have hchar : ∀ d : CodePoint, c = d ↔ c.toNat = d.toNat := fun d => CodePoint.toNat_inj.symm
  simp only [NumericCode, numericRanges, List.mem_append, or_and_right, exists_or,
    ← isDigit_iff_ranges, isMark, isBlank, Bool.or_eq_true, Bool.and_eq_true, beq_iff_eq,
    decide_eq_true_eq, hchar]
  cases isDigit c with
  | true => simp
  | false =>
    simp
    omega

theorem isOther_iff_code : isOther c = true ↔ ¬ NumericCode c.toNat := by
  rw [numericCode_iff, isOther_iff, not_or, Bool.not_eq_true, Bool.not_eq_true]

theorem isOther_ofNat (h : ¬ NumericCode n) : isOther (CodePoint.ofNat n) = true := by
  rw [isOther_iff_code, CodePoint.toNat_ofNat]
  split
  · exact h
  · decide

instance (r : CaseRun) : Decidable r.Aside :=
  decidable_of_iff (_ ∧ _ ∧ _) ⟨fun h => ⟨h.1, h.2.1, h.2.2⟩, fun h => ⟨h.apart, h.apart', h.valid⟩⟩

theorem aside_upperRuns : ∀ r ∈ upperRuns, r.Aside := by decide +kernel

theorem aside_lowerRuns : ∀ r ∈ lowerRuns, r.Aside := by decide +kernel

/-- Other characters, several of which may stand for one. -/
def Expands (entry : Nat × List Nat) : Prop :=
  ¬ NumericCode entry.1 ∧ entry.2 ≠ [] ∧ ∀ n ∈ entry.2, ¬ NumericCode n

instance (entry : Nat × List Nat) : Decidable (Expands entry) :=
  inferInstanceAs (Decidable (_ ∧ _ ∧ _))

theorem expands_upper : ∀ entry ∈ upperExpansions, Expands entry := by decide +kernel

theorem expands_title : ∀ entry ∈ titleExceptions, Expands entry := by decide +kernel

theorem isApart_iff {first last : Nat} : isApart first last = true ↔
    ∀ range ∈ numericRanges, last < range.1 ∨ range.2 < first := by
  simp [isApart]

theorem shiftBy_cases (runs : List CaseRun) (n : Nat) : shiftBy runs n = n ∨
    ∃ r ∈ runs, r.first ≤ n ∧ n ≤ r.last ∧ shiftBy runs n = (n + r.shift).toNat := by
  unfold shiftBy
  split
  · rename_i r hfind
    have hcovers := List.find?_some hfind
    simp only [Bool.and_eq_true, decide_eq_true_eq] at hcovers
    exact .inr ⟨r, List.mem_of_find?_eq_some hfind, hcovers.1.1, hcovers.1.2, rfl⟩
  · exact .inl rfl

theorem shiftBy_of_numeric (hruns : ∀ r ∈ runs, r.Aside) (h : NumericCode n) :
    shiftBy runs n = n := by
  refine (shiftBy_cases runs n).resolve_right ?_
  rintro ⟨r, hr, hfirst, hlast, -⟩
  obtain ⟨range, hrange, hlow, hhigh⟩ := h
  have happart := isApart_iff.mp (hruns r hr).apart range hrange
  omega

theorem shiftBy_of_other (hruns : ∀ r ∈ runs, r.Aside) (h : ¬ NumericCode n) :
    ¬ NumericCode (shiftBy runs n) := by
  rcases shiftBy_cases runs n with hsame | ⟨r, hr, hfirst, hlast, hshift⟩
  · rwa [hsame]
  · rintro ⟨range, hrange, hlow, hhigh⟩
    have happart := isApart_iff.mp (hruns r hr).apart' range hrange
    have hvalid := (hruns r hr).valid
    omega

/-- What letter case makes of a character: itself, or other characters of other ones. -/
inductive Recased (c : CodePoint) : Text → Prop
  | same : Recased c [c]
  | other {image : Text} (other : isOther c = true) (nonempty : image ≠ [])
      (all : ∀ d ∈ image, isOther d = true) : Recased c image

theorem Recased.reworded {image : Text} (h : Recased c image) : Reworded [c] image := by
  cases h with
  | same => exact .single c
  | other hother hne hall =>
    exact .of_filler .other (List.cons_ne_nil c []) hne (by simpa using hother) hall

theorem recased_ofNat (hc : ¬ NumericCode c.toNat) (h : ¬ NumericCode n) :
    Recased c [CodePoint.ofNat n] :=
  .other (isOther_iff_code.mpr hc) (List.cons_ne_nil _ []) (by simpa using isOther_ofNat h)

theorem recased_shift (hruns : ∀ r ∈ runs, r.Aside) :
    Recased c [CodePoint.ofNat (shiftBy runs c.toNat)] := by
  by_cases hcode : NumericCode c.toNat
  · rw [shiftBy_of_numeric hruns hcode, CodePoint.ofNat_toNat]
    exact .same
  · exact recased_ofNat hcode (shiftBy_of_other hruns hcode)

theorem recased_expansion {table : List (Nat × List Nat)} (htable : ∀ entry ∈ table, Expands entry)
    (h : table.lookup c.toNat = some ns) : Recased c (ns.map CodePoint.ofNat) := by
  obtain ⟨before, after, hsplit, -⟩ := List.lookup_eq_some_iff.mp h
  have hmem : (c.toNat, ns) ∈ table := by simp [hsplit]
  obtain ⟨hcode, hne, hall⟩ := htable _ hmem
  refine .other (isOther_iff_code.mpr hcode) (by simpa using hne) ?_
  intro d hd
  obtain ⟨k, hk, rfl⟩ := List.mem_map.mp hd
  exact isOther_ofNat (hall k hk)

/-- The letters from `a` to `z`, and those from `A` to `Z`. -/
theorem recased_ascii {low high : Nat} {f : Nat → Nat}
    (hletters : ∀ k < 128, low ≤ k → k ≤ high → ¬ NumericCode k ∧ ¬ NumericCode (f k))
    (hsmall : c.toNat < 128) :
    Recased c [if low ≤ c.toNat && c.toNat ≤ high then CodePoint.ofNat (f c.toNat) else c] := by
  by_cases hletter : low ≤ c.toNat ∧ c.toNat ≤ high
  · obtain ⟨hcode, himage⟩ := hletters c.toNat hsmall hletter.1 hletter.2
    simp only [hletter, decide_true, Bool.and_self, if_true]
    exact recased_ofNat hcode himage
  · have hnot : (decide (low ≤ c.toNat) && decide (c.toNat ≤ high)) = false := by simpa using hletter
    simp only [hnot, Bool.false_eq_true, if_false]
    exact .same

theorem recased_upperChar (c : CodePoint) : Recased c (upperChar c) := by
  unfold upperChar
  dsimp only
  split
  · exact recased_ascii (f := fun n => n - 32) (by decide +kernel) ‹_›
  · split
    · exact recased_expansion expands_upper ‹_›
    · exact recased_shift aside_upperRuns

theorem recased_lowerChar (c : CodePoint) : Recased c (lowerChar c) := by
  unfold lowerChar
  dsimp only
  split
  · exact recased_ascii (f := fun n => n + 32) (by decide +kernel) ‹_›
  · split
    · rename_i hdotted
      have hcode : c.toNat = 0x130 := by simpa using hdotted
      refine .other (isOther_iff_code.mpr ?_) (List.cons_ne_nil _ _) ?_
      · rw [hcode]
        decide +kernel
      · exact List.forall_mem_cons.mpr
          ⟨by decide +kernel, List.forall_mem_singleton.mpr (by decide +kernel)⟩
    · exact recased_shift aside_lowerRuns

theorem recased_titleChar (c : CodePoint) : Recased c (titleChar c) := by
  unfold titleChar
  split
  · exact recased_expansion expands_title ‹_›
  · exact recased_upperChar c

theorem reworded_upper (cs : Text) : Reworded cs (upper cs) := by
  induction cs with
  | nil => exact .nil
  | cons c cs ih => exact (recased_upperChar c).reworded.append ih

theorem reworded_lowerFrom (before cs : Text) : Reworded cs (lowerFrom before cs) := by
  induction cs generalizing before with
  | nil => exact .nil
  | cons c cs ih =>
    have hsigma : Recased c (if c == 'Σ' then [if isFinalSigma before cs then 'ς' else 'σ']
        else lowerChar c) := by
      split
      · rename_i hc
        obtain rfl : c = 'Σ' := by simpa using hc
        refine .other (by decide +kernel) (List.cons_ne_nil _ _) (List.forall_mem_singleton.mpr ?_)
        split <;> decide +kernel
      · exact recased_lowerChar c
    exact hsigma.reworded.append (ih (c :: before))

theorem reworded_capitalize (cs : Text) : Reworded cs (capitalize cs) := by
  cases cs with
  | nil => exact .nil
  | cons c cs => exact (recased_titleChar c).reworded.append (reworded_lowerFrom [c] cs)

end Case

/-! ## White space -/

/-- White space before white space makes no difference. -/
theorem Reworded.widened {c d : CodePoint} {cs ds : Text} (hc : isBlank c = true)
    (hd : isBlank d = true) (h : Reworded (d :: cs) ds) : Reworded (c :: d :: cs) ds := by
  generalize htext : d :: cs = text at h
  cases h with
  | nil => cases htext
  | mark hmark _ =>
    cases htext
    rw [isBlank_of_isMark hmark] at hd
    cases hd
  | @filler _ run run' cs' ds' hkind hne hne' hall hall' hrest =>
    obtain ⟨b, more, rfl⟩ := List.exists_cons_of_ne_nil hne
    obtain ⟨rfl, -⟩ := List.cons.inj htext
    cases hkind with
    | other =>
      rw [(isOther_iff.mp (hall d List.mem_cons_self)).2] at hd
      cases hd
    | blank =>
      rw [← List.cons_append]
      exact filler .blank (List.cons_ne_nil _ _) hne' (List.forall_mem_cons.mpr ⟨hc, hall⟩) hall' hrest

theorem reworded_space {c : CodePoint} (hc : isBlank c = true) : Reworded [c] [' '] :=
  .of_filler .blank (List.cons_ne_nil _ _) (List.cons_ne_nil _ _) (List.forall_mem_singleton.mpr hc)
    (List.forall_mem_singleton.mpr rfl)

theorem reworded_collapse (cs : Text) : Reworded cs (collapse cs) := by
  fun_induction collapse cs with
  | case1 => exact .nil
  | case2 c hc => exact reworded_space hc
  | case3 c hc d cs hd ih => exact ih.widened hc hd
  | case4 c hc d cs hd ih => exact (reworded_space hc).append ih
  | case5 c cs hc ih => exact (Reworded.single c).append ih

end XmlHarvest.Text
