import XmlHarvest.Proofs.Batch
import XmlHarvest.Proofs.Location

/-! # The stages at which documents fail

A valid text can be read, whatever the parser has counted, and an extraction fails for
other reasons than that a text cannot be read.  So a document of a batch is not valid, or
its root is read and something is missing in it or cannot be converted; no document fails
while it is parsed. -/
set_option autoImplicit false

namespace XmlHarvest

open Xml

theorem Parser.parse_of_validate {p q : Parser} {text : Option Text} {id : Option Text}
    (hreset : q.reset = p.reset) (h : (p.validate text).1 = .ok true) :
    ∃ root, (q.parse text id).1 = .ok root := by
  obtain ⟨⟨root, hreads⟩, -⟩ := Parser.validate_eq_true.mp h
  exact ⟨root, Parser.parse_eq_ok.mpr ((Parser.reads_of_reset hreset).mpr hreads)⟩

def Error.inDocument (e : Error) (name : Text) : Error :=
  { e with place := { e.place with document := some name } }

theorem Action.Fails.kind_ne_parsing {s : Scope} {e : Element} {action : Action}
    {problem : Problem} {path : Option Text} (h : action.Fails s e problem path) :
    problem.kind ≠ .parsing := by
  cases h with
  | reach => exact ErrorKind.noConfusion
  | text => exact ErrorKind.noConfusion
  | path => exact ErrorKind.noConfusion
  | unknownModifier => exact ErrorKind.noConfusion
  | modifier => exact ErrorKind.noConfusion
  | mapper => exact ErrorKind.noConfusion

/-- An extraction does not know the document, and reports no text that cannot be read. -/
theorem error_of_extract {schema : Schema} {registry : Registry} {root : Element} {e : Error}
    (h : schema.extract registry root = .error (.error e)) :
    e.kind ≠ .parsing ∧ e.place.document = none := by
  obtain ⟨before, visit, after, -, -, hvisit⟩ := (extract_eq_error schema registry root _).mp h
  obtain ⟨problem, path, hfails, rfl⟩ := visit_eq_error.mp hvisit
  exact ⟨hfails.kind_ne_parsing, rfl⟩

namespace Session

/-- How the failure of a document is recorded: its text is not valid, or the text is read
and the extraction from its root fails with an error. -/
inductive RecordedAs (s : Session) (document : Text × Option Text) : FailedDocument → Prop
  | validation (invalid : (s.validate document.2).1 = .ok false) :
      RecordedAs s document ⟨document.1, .validation, invalidMessage⟩
  | extraction {root : Element} {e : Error} (valid : (s.validate document.2).1 = .ok true)
      (parsed : (s.parser.parse document.2 (some document.1)).1 = .ok root)
      (failed : s.extract root = .error (.error e)) :
      RecordedAs s document ⟨document.1, .extraction, (e.inDocument document.1).message⟩

variable {s : Session} {document : Text × Option Text} {f : FailedDocument}
  {r r' : BatchResult}

theorem RecordedAs.stage_ne_parsing (h : s.RecordedAs document f) : f.stage ≠ .parsing := by
  cases h with
  | validation => exact Stage.noConfusion
  | extraction => exact Stage.noConfusion

theorem withDocument_of_none {e : Error} {name : Text} (h : e.place.document = none) :
    withDocument (some name) (.error e) = .error (e.inDocument name) := by
  rw [withDocument, h]
  rfl

theorem failedStage_inDocument {e : Error} {name : Text} (h : e.kind ≠ .parsing) :
    failedStage (e.inDocument name) = .extraction := by
  have hkind : ¬ ((e.inDocument name).kind == .parsing) = true := fun heq => h (beq_iff_eq.mp heq)
  exact if_neg hkind

/-- A session that judges its texts records every failure in one of the two ways. -/
theorem recordedAs_of_failsAs (htrusting : s.trusting = false) (h : s.FailsAs document f) :
    s.RecordedAs document f := by
  obtain ⟨name, stage, message⟩ := f
  obtain ⟨hname, ⟨hinvalid, hstage, hmessage⟩ | ⟨hvalid, e, hparse, hstage, hmessage⟩⟩ := h
  · cases hname
    cases hstage
    cases hmessage
    exact .validation hinvalid
  · obtain ⟨root, hreads⟩ := reads_of_admits htrusting hvalid
    have hroot : (s.parser.parse document.2 (some document.1)).1 = .ok root :=
      Parser.parse_eq_ok.mpr hreads
    -- the text is read, so the error comes out of the extraction
    rw [parse_fst, hroot] at hparse
    obtain ⟨failure, hextract, hfailure⟩ := Outcome.mapError_eq_error.mp hparse
    cases failure with
    | fault fault => cases hfailure
    | error inner =>
      obtain ⟨hkind, hdocument⟩ := error_of_extract hextract
      rw [withDocument_of_none hdocument] at hfailure
      cases hfailure
      rw [failedStage_inDocument hkind] at hstage
      cases hname
      cases hstage
      cases hmessage
      exact .extraction hvalid hroot hextract

/-- A document adds no failure to a result, or one that is recorded in one of the two
ways. -/
theorem failures_runDocument (htrusting : s.trusting = false)
    (h : (s.runDocument r document.1 document.2).1 = .ok r') :
    (s.succeeds document = true ∧ r'.failures = r.failures) ∨
      ∃ f, s.RecordedAs document f ∧ r'.failures = r.failures ++ [f] := by
  rw [runDocument_eq_judge htrusting] at h
  obtain ⟨entry, hentry, rfl⟩ := (Outcome.map_eq_ok _ _ _).mp h
  rcases judge_eq_ok hentry with ⟨hsucceeds, v, rfl⟩ | ⟨-, stage, message, rfl, hfails⟩
  · exact .inl ⟨hsucceeds, rfl⟩
  · exact .inr ⟨_, recordedAs_of_failsAs htrusting hfails, rfl⟩

theorem failures_run {documents : List (Text × Option Text)} (htrusting : s.trusting = false)
    (h : (s.run documents).1 = .ok r) :
    List.Forall₂ s.RecordedAs (documents.filter fun d => !s.succeeds d) r.failures := by
  rw [run_eq_judge htrusting] at h
  obtain ⟨entries, hjudged, rfl⟩ := (Outcome.map_eq_ok _ _ _).mp h
  have hfailures := failures_of_judged ((Outcome.mapM_eq_ok _ _ _).mp hjudged)
  rw [BatchResult.failures_recordAll]
  exact hfailures.imp fun _ _ => recordedAs_of_failsAs htrusting

end Session

/-- A text that is valid for a parser is read by every parser of its leniency with the same
reader, whatever both have counted.  So each document of a batch, also of one that a fault
ends later on, adds at most one failure, which is that of a text that is not valid or of an
extraction from the root that was read; and a batch that returns has one such record for each
document that does not succeed, in their order. -/
theorem valid_documents_fail_in_extraction (s : Session) :
    (∀ (p q : Parser) text id, q.reader = p.reader → q.recover = p.recover →
      (p.validate text).1 = .ok true → ∃ root, (q.parse text id).1 = .ok root) ∧
    (s.trusting = false →
      (∀ document r r', (s.runDocument r document.1 document.2).1 = .ok r' →
        (s.succeeds document = true ∧ r'.failures = r.failures) ∨
          ∃ f, s.RecordedAs document f ∧ r'.failures = r.failures ++ [f]) ∧
      ∀ documents r, (s.run documents).1 = .ok r →
        (∀ f ∈ r.failures, f.stage ≠ .parsing) ∧
        List.Forall₂ s.RecordedAs (documents.filter fun d => !s.succeeds d) r.failures) := by
  constructor
  · intro p q text id hreader hrecover h
    have hreset : q.reset = p.reset := by
      rw [Parser.reset, Parser.reset, hreader, hrecover]
    exact Parser.parse_of_validate hreset h
  · intro htrusting
    constructor
    · intro document r r' h
      exact Session.failures_runDocument htrusting h
    · intro documents r h
      have hrecorded := Session.failures_run htrusting h
      refine ⟨?_, hrecorded⟩
      intro f hf
      obtain ⟨document, -, hdocument⟩ := mem_forall₂_right hrecorded hf
      exact hdocument.stage_ne_parsing

def bareNote : FailedDocument := ⟨"d", .extraction,
  "No element matches segment 'p' (collection=note, field=text, path=p, document=d)"⟩

/-- A document that is missing, and one that is valid and has nothing to extract. -/
theorem bareNote_fails_in_extraction : noteSession.trusting = false ∧
    ∃ r, (noteSession.run [("e", none), ("d", some "<r/>")]).1 = .ok r ∧
      (∀ f ∈ r.failures, f.stage ≠ .parsing) ∧
      r.failures = [⟨"e", .validation, Session.invalidMessage⟩, bareNote] := by
  have hreads : Reads { recover := false } (some "<r/>") ⟨"r", []⟩ :=
    Parser.reads_of_read "<r/>".toList (by decide +kernel) (by decide +kernel) (by decide +kernel)
  have hroot : (noteSession.parser.parse (some "<r/>") (some "d")).1 = .ok ⟨"r", []⟩ :=
    Parser.parse_eq_ok.mpr hreads
  have hparse : (noteSession.parse (some "<r/>") (some "d")).1 =
      .error (.error ⟨.pathNotFound "p", ⟨some "note", some "text", some "p", some "d"⟩⟩) := by
    rw [Session.parse_fst, hroot]
    rfl
  have hjudge : noteSession.judge ("d", some "<r/>") =
      .ok ("d", .failed .extraction bareNote.error) := by
    have hsound : ¬ Frayed (some "<r/>") := by
      rintro ⟨t, ⟨⟩, h⟩
      revert h
      decide +kernel
    have hadmits : noteSession.Admits (some "<r/>") :=
      Session.admits_iff.mpr (.inr ⟨⟨_, hreads⟩, hsound⟩)
    rw [Session.judge_of_admits hadmits, hparse]
    rfl
  have hjudged : List.mapM noteSession.judge [("e", none), ("d", some ("<r/>" : Text))] =
      .ok [("e", .failed .validation Session.invalidMessage),
        ("d", .failed .extraction bareNote.error)] := by
    rw [Outcome.mapM_eq_ok]
    exact .cons rfl (.cons hjudge .nil)
  obtain ⟨r, hrun⟩ : ∃ r, (noteSession.run [("e", none), ("d", some "<r/>")]).1 = .ok r := by
    rw [Session.run_eq_judge rfl, hjudged]
    exact ⟨_, rfl⟩
  obtain ⟨-, hrecords⟩ := valid_documents_fail_in_extraction noteSession
  refine ⟨rfl, r, hrun, ((hrecords rfl).2 _ r hrun).1, ?_⟩
  rw [Session.run_eq_judge rfl, hjudged] at hrun
  cases hrun
  rfl

end XmlHarvest
