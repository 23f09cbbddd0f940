import XmlHarvest.Proofs.Session
import XmlHarvest.Proofs.Text.Trim
import XmlHarvest.Proofs.Xml.Ends

/-! # Validation and reading

A text is valid when it can be read and looks like markup at both ends, whatever reads
for the parser.  The second test rejects texts that can be read.  The program's own reader
reads such texts with another mark of byte order behind the one that is dropped and, where
it reads leniently, such that do not end with a mark. -/
set_option autoImplicit false

namespace XmlHarvest

open Xml

namespace Document

variable {recover : Bool} {t : Text} {cs : List Char} {c : Char} {root : Element}

theorem isBlank_of_isSpace (h : isSpace c = true) : Text.isBlank (.char c) = true := by
  have hmark : c = ' ' ∨ c = '\t' ∨ c = '\n' ∨ c = '\r' := by
    simpa [isSpace, or_assoc] using h
  rcases hmark with rfl | rfl | rfl | rfl <;> decide

theorem head?_ofChars : (Text.ofChars cs).head? = cs.head?.map .char := List.head?_map

theorem getLast?_ofChars : (Text.ofChars cs).getLast? = cs.getLast?.map .char :=
  List.getLast?_map

/-- Nothing is left of white space at the front of a cleaned text. -/
theorem head?_of_reads (hclean : clean t = Text.ofChars cs) (h : read recover cs = .root root) :
    cs.head? = some '<' ∨ cs.head? = some '\ufeff' := by
  obtain ⟨c, hhead, rfl | hspace | rfl⟩ := head?_of_read h
  · exact .inl hhead
  · have hfirst : (clean t).head? = some (.char c) := by
      rw [hclean, head?_ofChars, hhead]
      rfl
    have hblank : Text.isBlank (.char c) = false := Text.stripOf_head? hfirst
    rw [isBlank_of_isSpace hspace] at hblank
    cases hblank
  · exact .inr hhead

theorem getLast?_of_reads (hclean : clean t = Text.ofChars cs) (h : read false cs = .root root) :
    cs.getLast? = some '>' := by
  have htidy := tidy_of_read h
  cases hlast : cs.getLast? with
  | none =>
    obtain ⟨c, hhead, -⟩ := head?_of_read h
    rw [List.getLast?_eq_none_iff.mp hlast] at hhead
    cases hhead
  | some c =>
    have hend : isEnd c = true := htidy c hlast
    have hfinal : (clean t).getLast? = some (.char c) := by
      rw [hclean, getLast?_ofChars, hlast]
      rfl
    have hblank : Text.isBlank (.char c) = false := Text.stripOf_getLast? hfinal
    rw [isEnd, Bool.or_eq_true, beq_iff_eq] at hend
    obtain rfl | hspace := hend
    · rfl
    · rw [isBlank_of_isSpace hspace] at hblank
      cases hblank

/-- Of the texts that the program's reader reads, those are frayed that have a mark of
byte order still at their front or, where it is lenient, something other than a mark at
their end. -/
theorem frayed_iff_of_reads (h : Reads { recover := recover } (some t) root) :
    Frayed (some t) ↔ (clean t).head? = some (.char '\ufeff') ∨
      recover = true ∧ (clean t).getLast? ≠ some (.char '>') := by
  obtain ⟨-, cs, hclean, hread⟩ := Parser.reads_iff.mp h
  change readBytes recover _ = _ at hread
  rw [readBytes_encodeChars] at hread
  simp only [Frayed, Option.some.injEq, exists_eq_left']
  rw [Parser.looksLikeMarkup, Bool.and_eq_false_iff, beq_eq_false_iff_ne, beq_eq_false_iff_ne]
  constructor
  · rintro (hhead | hlast)
    · rcases head?_of_reads hclean hread with hmarkup | hmark
      · rw [hclean, head?_ofChars, hmarkup] at hhead
        exact absurd rfl hhead
      · rw [hclean, head?_ofChars, hmark]
        exact .inl rfl
    · cases recover with
      | true => exact .inr ⟨rfl, hlast⟩
      | false =>
        rw [hclean, getLast?_ofChars, getLast?_of_reads hclean hread] at hlast
        exact absurd rfl hlast
  · rintro (hmark | ⟨-, hlast⟩)
    · rw [hmark]
      exact .inl (by decide)
    · exact .inr hlast

end Document

namespace Session

variable {s : Session} {text : Option Text} {id : Option Text}

theorem admits_iff : s.Admits text ↔
    s.trusting = true ∨ (∃ root, Reads s.parser text root) ∧ ¬ Frayed text := by
  rw [Admits, validate, ← Parser.validate_eq_true]
  split
  · rename_i htrusting
    simp [htrusting]
  · rename_i htrusting
    simp [htrusting]

/-- A text that is read is rejected exactly when it is frayed. -/
theorem rejects_iff_of_reads {root : Element} (h : Reads s.parser text root) :
    s.Rejects text ↔ s.trusting = false ∧ Frayed text := by
  rw [Rejects, validate]
  split
  · rename_i htrusting
    simp [htrusting]
  · rename_i htrusting
    have hnot : s.trusting = false := Bool.eq_false_iff.mpr htrusting
    change (s.parser.validate text).1 = _ ↔ _
    rw [and_iff_right hnot]
    constructor
    · intro hfalse
      by_contra hsound
      have htrue := Parser.validate_eq_true.mpr ⟨⟨root, h⟩, hsound⟩
      cases htrue.symm.trans hfalse
    · rintro ⟨t, rfl, hmarkup⟩
      rw [Parser.validate_fst_some, Parser.isWellFormed, hmarkup]
      exact ite_self _

def invalid (name : Text) : FailedDocument := ⟨name, .validation, invalidMessage⟩

def invalidOf (r : BatchResult) : List FailedDocument :=
  r.failures.filter (·.stage == .validation)

theorem failedStage_ne_validation (e : Error) : failedStage e ≠ .validation := by
  rw [failedStage]
  split <;> exact Stage.noConfusion

theorem invalidOf_recordFailure (r : BatchResult) (f : FailedDocument) :
    invalidOf (r.recordFailure f) = invalidOf r ++ [f].filter (·.stage == .validation) :=
  List.filter_append _ _

def rejected (s : Session) (d : Text × Option Text) : Bool :=
  match (s.validate d.2).1 with
  | .ok false => true
  | _ => false

theorem rejected_of_reset {s' : Session} (h : s'.reset = s.reset) : s'.rejected = s.rejected := by
  funext d
  rw [rejected, rejected, validate_of_reset h]

theorem invalidOf_runDocument {r r' : BatchResult} {name : Text}
    (h : (s.runDocument r name text).1 = .ok r') :
    invalidOf r' = invalidOf r ++ if s.rejected (name, text) then [invalid name] else [] := by
  rcases s.validate_cases text with hadmits | hrejects | ⟨failure, hfails⟩
  · have hkept : s.rejected (name, text) = false := by
      rw [Admits] at hadmits
      rw [rejected, hadmits]
    rw [runDocument_of_admits hadmits] at h
    rw [hkept, if_neg Bool.false_ne_true, List.append_nil]
    split at h
    · cases h
      rfl
    · rename_i e after _
      cases h
      have hstage : ¬ (failedStage e == .validation) = true := fun heq =>
        failedStage_ne_validation e (beq_iff_eq.mp heq)
      rw [invalidOf_recordFailure, List.filter_cons_of_neg (by exact hstage)]
      exact List.append_nil _
    · cases h
  · have hdropped : s.rejected (name, text) = true := by
      rw [Rejects] at hrejects
      rw [rejected, hrejects]
    rw [runDocument_of_rejects hrejects] at h
    rw [hdropped, if_pos rfl]
    cases h
    exact invalidOf_recordFailure r (invalid name)
  · rw [runDocument_of_fails hfails] at h
    cases h

/-- A batch keeps the failures it has and adds one for each text that is rejected. -/
theorem invalidOf_runFrom {r r' : BatchResult} {documents : List (Text × Option Text)}
    (h : (s.runFrom r documents).1 = .ok r') :
    invalidOf r' = invalidOf r ++ (documents.filter s.rejected).map fun d => invalid d.1 := by
  induction documents generalizing s r with
  | nil =>
    cases h
    exact (List.append_nil _).symm
  | cons document rest ih =>
    obtain ⟨name, text⟩ := document
    have hreset : (s.runDocument r name text).2.reset = s.reset := reset_runDocument
    rw [runFrom] at h
    split at h
    · rename_i r₁ s₁ hrun
      rw [hrun] at hreset
      have hfirst := invalidOf_runDocument (congrArg Prod.fst hrun)
      rw [ih h, hfirst, List.append_assoc, rejected_of_reset hreset, List.filter_cons]
      cases s.rejected (name, text) with
      | true => rfl
      | false => rfl
    · cases h

end Session

/-- A text is valid exactly when it is read and is not frayed, whatever reads it.  So a
text from which something can be extracted is rejected exactly when it is frayed, and a
batch records one failure of validation for each text that is rejected, in their order. -/
theorem valid_iff_read_and_not_frayed (s : Session) :
    (∀ text id, (s.parser.validate text).1 = .ok true ↔
      (∃ root, (s.parser.parse text id).1 = .ok root) ∧ ¬ Frayed text) ∧
    (∀ text id v, (s.parse text id).1 = .ok v →
      ((s.validate text).1 = .ok false ↔ s.trusting = false ∧ Frayed text) ∧
      ((s.validate text).1 = .ok true ↔ s.trusting = true ∨ ¬ Frayed text)) ∧
    ∀ documents r, (s.run documents).1 = .ok r →
      r.failures.filter (·.stage == .validation) =
        (documents.filter s.rejected).map fun d =>
          ⟨d.1, .validation, Session.invalidMessage⟩ := by
  refine ⟨?_, ?_, ?_⟩
  · intro text id
    simp only [Parser.parse_eq_ok]
    exact Parser.validate_eq_true
  · intro text id v h
    rw [Session.parse_fst] at h
    obtain ⟨root, hroot, -⟩ := (Outcome.bind_eq_ok _ _ _).mp h
    have hreads : Reads s.parser text root := Parser.parse_eq_ok.mp hroot
    have hadmits : (s.validate text).1 = .ok true ↔ _ := Session.admits_iff
    refine ⟨Session.rejects_iff_of_reads hreads, ?_⟩
    rw [hadmits, and_iff_right ⟨root, hreads⟩]
  · intro documents r h
    have hfailures := Session.invalidOf_runFrom h
    exact hfailures

/-- Behind a second mark of byte order or before characters that do not belong to
it, an element is read, but its text is rejected. -/
theorem frayed_texts_read_but_rejected :
    (∃ root, (Parser.parse { recover := false } (some "\ufeff\ufeff<r/>") none).1 = .ok root) ∧
    (Parser.validate { recover := false } (some "\ufeff\ufeff<r/>")).1 = .ok false ∧
    (∃ root, (Parser.parse { recover := true } (some "<r/>junk") none).1 = .ok root) ∧
    (Parser.validate { recover := true } (some "<r/>junk")).1 = .ok false := by
  have hmark : Reads { recover := false } (some "\ufeff\ufeff<r/>") ⟨"r", []⟩ :=
    Parser.reads_of_read "\ufeff<r/>".toList (by decide +kernel) (by decide +kernel)
      (by decide +kernel)
  have hjunk : Reads { recover := true } (some "<r/>junk") ⟨"r", []⟩ :=
    Parser.reads_of_read "<r/>junk".toList (by decide +kernel) (by decide +kernel)
      (by decide +kernel)
  refine ⟨⟨_, Parser.parse_eq_ok.mpr hmark⟩, rfl, ⟨_, Parser.parse_eq_ok.mpr hjunk⟩, rfl⟩

end XmlHarvest
