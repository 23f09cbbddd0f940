import XmlHarvest.Proofs.Ordered
import XmlHarvest.Proofs.Path
import XmlHarvest.Proofs.Validation

/-! # Batches are run document by document

What comes of a document does not depend on the documents around it: a session
that validates its texts judges each of them as a fresh one would.  So a batch is
the list of its verdicts, recorded one after the other, and the result of two
batches in a row is made of their two results. -/
set_option autoImplicit false

namespace XmlHarvest

inductive Verdict where
  | extracted (v : Value)
  | failed (stage : Stage) (message : Text)

namespace BatchResult

def record (r : BatchResult) (entry : Text × Verdict) : BatchResult :=
  match entry.2 with
  | .extracted v => r.recordSuccess entry.1 v
  | .failed stage message => r.recordFailure ⟨entry.1, stage, message⟩

def recordAll (r : BatchResult) (entries : List (Text × Verdict)) : BatchResult :=
  entries.foldl record r

def followedBy (a b : BatchResult) : BatchResult where
  processed := a.processed + b.processed
  successful := a.successful + b.successful
  failed := a.failed + b.failed
  errors := a.errors ++ b.errors
  results := Ordered.update a.results b.results
  failures := a.failures ++ b.failures

variable {r a b : BatchResult} {entry : Text × Verdict} {entries : List (Text × Verdict)}

theorem nodup_record (h : (Ordered.keys r.results).Nodup) :
    (Ordered.keys (r.record entry).results).Nodup := by
  obtain ⟨name, verdict⟩ := entry
  cases verdict with
  | extracted v => exact Ordered.nodup_put h
  | failed stage message => exact h

theorem record_followedBy (h : (Ordered.keys b.results).Nodup) :
    (a.followedBy b).record entry = a.followedBy (b.record entry) := by
  obtain ⟨name, verdict⟩ := entry
  cases verdict with
  | extracted v =>
    simp [record, recordSuccess, followedBy, Ordered.update_put h, Nat.add_assoc]
  | failed stage message =>
    simp [record, recordFailure, followedBy, Nat.add_assoc]

/-- Verdicts may be recorded apart from what was recorded before them. -/
theorem recordAll_followedBy (h : (Ordered.keys b.results).Nodup) :
    (a.followedBy b).recordAll entries = a.followedBy (b.recordAll entries) := by
  induction entries generalizing b with
  | nil => rfl
  | cons entry entries ih =>
    have hnext : (Ordered.keys (b.record entry).results).Nodup := nodup_record h
    simp only [recordAll, List.foldl_cons, record_followedBy h]
    exact ih hnext

theorem recordAll_eq_followedBy : r.recordAll entries = r.followedBy (recordAll {} entries) := by
  have hempty : r.followedBy {} = r := by simp [followedBy]
  rw [← recordAll_followedBy (by simp [Ordered.keys]), hempty]

def output? : Text × Verdict → Option (Text × Value)
  | (name, .extracted v) => some (name, v)
  | _ => none

def failure? : Text × Verdict → Option FailedDocument
  | (name, .failed stage message) => some ⟨name, stage, message⟩
  | _ => none

/-- The numbers of a result agree with the records in it. -/
structure Consistent (r : BatchResult) : Prop where
  processed : r.processed = r.successful + r.failed
  failed : r.failures.length = r.failed
  errors : r.errors = r.failures.map FailedDocument.summary

theorem consistent_record (h : r.Consistent) : (r.record entry).Consistent := by
  obtain ⟨hprocessed, hfailed, herrors⟩ := h
  obtain ⟨name, verdict⟩ := entry
  cases verdict with
  | extracted v =>
    refine ⟨?_, hfailed, herrors⟩
    simp only [record, recordSuccess]
    omega
  | failed stage message =>
    constructor
    · simp only [record, recordFailure]
      omega
    · simp [record, recordFailure, hfailed]
    · simp [record, recordFailure, herrors]

theorem consistent_recordAll (h : r.Consistent) : (r.recordAll entries).Consistent := by
  induction entries generalizing r with
  | nil => exact h
  | cons entry entries ih => exact ih (consistent_record h)

theorem processed_recordAll : (r.recordAll entries).processed = r.processed + entries.length := by
  induction entries generalizing r with
  | nil => rfl
  | cons entry entries ih =>
    have hrecord : (r.record entry).processed = r.processed + 1 := by
      obtain ⟨name, verdict⟩ := entry
      cases verdict <;> rfl
    have hrest : ((r.record entry).recordAll entries).processed =
        (r.record entry).processed + entries.length := ih
    simp only [recordAll, List.foldl_cons, List.length_cons] at hrest ⊢
    omega

theorem failures_recordAll :
    (r.recordAll entries).failures = r.failures ++ entries.filterMap failure? := by
  induction entries generalizing r with
  | nil => simp [recordAll]
  | cons entry entries ih =>
    have hrest : ((r.record entry).recordAll entries).failures =
        (r.record entry).failures ++ entries.filterMap failure? := ih
    simp only [recordAll, List.foldl_cons] at hrest ⊢
    rw [hrest]
    obtain ⟨name, verdict⟩ := entry
    cases verdict with
    | extracted v => simp [record, recordSuccess, List.filterMap_cons, failure?]
    | failed stage message => simp [record, recordFailure, failure?]

theorem results_recordAll :
    (r.recordAll entries).results = Ordered.update r.results (entries.filterMap output?) := by
  induction entries generalizing r with
  | nil => rfl
  | cons entry entries ih =>
    have hrest : ((r.record entry).recordAll entries).results =
        Ordered.update (r.record entry).results (entries.filterMap output?) := ih
    simp only [recordAll, List.foldl_cons] at hrest ⊢
    rw [hrest]
    obtain ⟨name, verdict⟩ := entry
    cases verdict with
    | extracted v => simp [record, recordSuccess, output?]
    | failed stage message => simp [record, recordFailure, List.filterMap_cons, output?]

end BatchResult

namespace Session

open Xml

/-- What comes of a document, whatever was run before it.  A bare fault is no
verdict. -/
def judge (s : Session) (document : Text × Option Text) : Outcome (Text × Verdict) := do
  if ← (s.validate document.2).1 then
    match (s.parse document.2 (some document.1)).1 with
    | .ok v => .ok (document.1, .extracted v)
    | .error (.error e) => .ok (document.1, .failed (failedStage e) e.message)
    | .error (.fault f) => .error (.fault f)
  else .ok (document.1, .failed .validation invalidMessage)

variable {s s' : Session} {r : BatchResult} {document : Text × Option Text}
  {documents : List (Text × Option Text)}

/-- The name that a text has in errors only matters where the text is not read. -/
theorem parse_of_reset {text : Option Text} {id : Option Text} {root : Element}
    (hreset : s'.reset = s.reset) (hreads : Reads s.parser text root) :
    (s'.parse text id).1 = (s.parse text id).1 := by
  have hparser : s'.parser.reset = s.parser.reset := congrArg (·.parser) hreset
  have hextract : s'.extract root = s.extract root := congrArg (·.extract root) hreset
  have hroot : (s.parser.parse text id).1 = .ok root := Parser.parse_eq_ok.mpr hreads
  have hroot' : (s'.parser.parse text id).1 = .ok root :=
    Parser.parse_eq_ok.mpr ((Parser.reads_of_reset hparser).mpr hreads)
  rw [parse_fst, parse_fst, hroot, hroot']
  exact congrArg (Except.mapError (withDocument id)) hextract

theorem reads_of_admits {text : Option Text} (htrusting : s.trusting = false)
    (hadmits : s.Admits text) : ∃ root, Reads s.parser text root := by
  rcases admits_iff.mp hadmits with h | h
  · simp [htrusting] at h
  · exact h.1

theorem judge_of_admits {document : Text × Option Text} (h : s.Admits document.2) :
    s.judge document =
      match (s.parse document.2 (some document.1)).1 with
      | .ok v => .ok (document.1, .extracted v)
      | .error (.error e) => .ok (document.1, .failed (failedStage e) e.message)
      | .error (.fault f) => .error (.fault f) := by
  rw [Admits] at h
  rw [judge, h]
  rfl

theorem judge_of_rejects {document : Text × Option Text} (h : s.Rejects document.2) :
    s.judge document = .ok (document.1, .failed .validation invalidMessage) := by
  rw [Rejects] at h
  rw [judge, h]
  rfl

theorem judge_of_fails {document : Text × Option Text} {failure : Failure}
    (h : (s.validate document.2).1 = .error failure) : s.judge document = .error failure := by
  rw [judge, h]
  rfl

theorem judge_of_reset (htrusting : s.trusting = false) (hreset : s'.reset = s.reset) :
    s'.judge document = s.judge document := by
  have hsame : (s'.validate document.2).1 = (s.validate document.2).1 := validate_of_reset hreset
  rcases s.validate_cases document.2 with hadmits | hrejects | ⟨failure, hfails⟩
  · obtain ⟨root, hroot⟩ := reads_of_admits htrusting hadmits
    rw [judge_of_admits hadmits, judge_of_admits (hsame.trans hadmits), parse_of_reset hreset hroot]
  · rw [judge_of_rejects hrejects, judge_of_rejects (hsame.trans hrejects)]
  · rw [judge_of_fails hfails, judge_of_fails (hsame.trans hfails)]

theorem runDocument_eq_judge (htrusting : s.trusting = false) (document : Text × Option Text) :
    (s.runDocument r document.1 document.2).1 = r.record <$> s.judge document := by
  rcases s.validate_cases document.2 with hadmits | hrejects | ⟨failure, hfails⟩
  · obtain ⟨root, hroot⟩ := reads_of_admits htrusting hadmits
    have hparse : ((s.validate document.2).2.parse document.2 (some document.1)).1 =
        (s.parse document.2 (some document.1)).1 := parse_of_reset reset_validate hroot
    rw [runDocument_of_admits hadmits, judge_of_admits hadmits, ← hparse]
    rcases (s.validate document.2).2.parse document.2 (some document.1) with ⟨(e | f) | v, after⟩
    · rfl
    · rfl
    · rfl
  · rw [runDocument_of_rejects hrejects, judge_of_rejects hrejects]
    rfl
  · rw [runDocument_of_fails hfails, judge_of_fails hfails]
    rfl

/-- A batch records the verdicts on its documents, in their order. -/
theorem runFrom_eq_judge (htrusting : s.trusting = false) :
    (s.runFrom r documents).1 = r.recordAll <$> documents.mapM s.judge := by
  induction documents generalizing s r with
  | nil => rfl
  | cons document rest ih =>
    obtain ⟨name, text⟩ := document
    have hfirst : (s.runDocument r name text).1 = r.record <$> s.judge (name, text) :=
      runDocument_eq_judge htrusting (name, text)
    have hreset : (s.runDocument r name text).2.reset = s.reset := reset_runDocument
    rw [runFrom, List.mapM_cons]
    revert hfirst hreset
    rcases s.runDocument r name text with ⟨_ | r₁, s₁⟩
    · intro hfirst _
      have hjudge := (Outcome.map_eq_error _ _ _).mp hfirst.symm
      simp [hjudge, bind, Except.bind, Functor.map, Except.map]
    · intro hfirst hreset
      obtain ⟨verdict, hjudge, hr₁⟩ := (Outcome.map_eq_ok _ _ _).mp hfirst.symm
      have htrusting₁ : s₁.trusting = false := by
        rw [← htrusting]
        exact congrArg (·.trusting) hreset
      -- a document moves the counters only, and no verdict depends on them
      have hsame : s₁.judge = s.judge := by
        funext other
        exact judge_of_reset htrusting hreset
      dsimp only
      rw [ih htrusting₁, hsame, hjudge, ← hr₁]
      cases rest.mapM s.judge with
      | error failure => rfl
      | ok verdicts => rfl

theorem run_eq_judge (htrusting : s.trusting = false) :
    (s.run documents).1 = BatchResult.recordAll {} <$> documents.mapM s.judge :=
  runFrom_eq_judge htrusting

theorem judge_reset (htrusting : s.trusting = false) : s.reset.judge = s.judge := by
  funext document
  exact judge_of_reset htrusting rfl

theorem judge_of_reads {name : Text} {t : Text} {root : Element} {v : Value}
    (hreads : Reads s.parser (some t) root) (hsound : ¬ Frayed (some t))
    (hextract : s.extract root = .ok v) : s.judge (name, some t) = .ok (name, .extracted v) := by
  have hadmits : s.Admits (some t) := admits_iff.mpr (.inr ⟨⟨root, hreads⟩, hsound⟩)
  have hroot : (s.parser.parse (some t) (some name)).1 = .ok root := Parser.parse_eq_ok.mpr hreads
  have hparse : (s.parse (some t) (some name)).1 = .ok v := by
    rw [parse_fst, hroot]
    simp [bind, Except.bind, hextract, Except.mapError]
  rw [judge_of_admits hadmits, hparse]

theorem run_append (htrusting : s.trusting = false) (first second : List (Text × Option Text)) :
    (s.run (first ++ second)).1 =
      (s.reset.run first).1 >>= fun a => a.followedBy <$> (s.reset.run second).1 := by
  have hreset : s.reset.trusting = false := htrusting
  rw [run_eq_judge htrusting, run_eq_judge hreset, run_eq_judge hreset, judge_reset htrusting,
    List.mapM_append]
  cases first.mapM s.judge with
  | error failure => rfl
  | ok verdicts =>
    cases second.mapM s.judge with
    | error failure => rfl
    | ok others =>
      have hboth : BatchResult.recordAll {} (verdicts ++ others) =
          (BatchResult.recordAll {} verdicts).followedBy (BatchResult.recordAll {} others) := by
        rw [← BatchResult.recordAll_eq_followedBy]
        exact List.foldl_append
      exact congrArg Except.ok hboth

def succeeds (s : Session) (document : Text × Option Text) : Bool :=
  match (s.validate document.2).1 with
  | .ok true => (s.parse document.2 (some document.1)).1.isOk
  | _ => false

def FailsAs (s : Session) (document : Text × Option Text) (f : FailedDocument) : Prop :=
  f.document = document.1 ∧
    (s.Rejects document.2 ∧ f.stage = .validation ∧ f.error = invalidMessage ∨
      s.Admits document.2 ∧ ∃ e, (s.parse document.2 (some document.1)).1 = .error (.error e) ∧
        f.stage = failedStage e ∧ f.error = e.message)

theorem succeeds_of_admits {document : Text × Option Text} (h : s.Admits document.2) :
    s.succeeds document = (s.parse document.2 (some document.1)).1.isOk := by
  rw [Admits] at h
  rw [succeeds, h]

theorem succeeds_of_rejects {document : Text × Option Text} (h : s.Rejects document.2) :
    s.succeeds document = false := by
  rw [Rejects] at h
  rw [succeeds, h]

theorem judge_eq_ok {entry : Text × Verdict} (h : s.judge document = .ok entry) :
    (s.succeeds document = true ∧ ∃ v, entry = (document.1, .extracted v)) ∨
      (s.succeeds document = false ∧
        ∃ stage message, entry = (document.1, .failed stage message) ∧
          s.FailsAs document ⟨document.1, stage, message⟩) := by
  rcases s.validate_cases document.2 with hadmits | hrejects | ⟨failure, hfails⟩
  · rw [judge_of_admits hadmits] at h
    rw [succeeds_of_admits hadmits]
    cases hparse : (s.parse document.2 (some document.1)).1 with
    | ok v =>
      rw [hparse] at h
      exact .inl ⟨rfl, v, (Except.ok.inj h).symm⟩
    | error failure =>
      rw [hparse] at h
      cases failure with
      | error e =>
        exact .inr ⟨rfl, _, _, (Except.ok.inj h).symm, rfl, .inr ⟨hadmits, e, hparse, rfl, rfl⟩⟩
      | fault f => cases h
  · rw [judge_of_rejects hrejects] at h
    exact .inr ⟨succeeds_of_rejects hrejects, _, _, (Except.ok.inj h).symm, rfl,
      .inl ⟨hrejects, rfl, rfl⟩⟩
  · rw [judge_of_fails hfails] at h
    cases h

section Judged

variable {entries : List (Text × Verdict)}

theorem failures_of_judged (h : List.Forall₂ (fun d e => s.judge d = .ok e) documents entries) :
    List.Forall₂ s.FailsAs (documents.filter fun d => !s.succeeds d)
      (entries.filterMap BatchResult.failure?) := by
  induction h with
  | nil => exact .nil
  | cons hjudge _ ih =>
    rcases judge_eq_ok hjudge with ⟨hsucceeds, v, rfl⟩ | ⟨hfails, stage, message, rfl, hrecord⟩
    · simpa [hsucceeds, List.filterMap_cons, BatchResult.failure?] using ih
    · simpa [hfails, List.filterMap_cons, BatchResult.failure?] using And.intro hrecord ih

theorem names_of_judged (h : List.Forall₂ (fun d e => s.judge d = .ok e) documents entries) :
    Ordered.keys (entries.filterMap BatchResult.output?) =
      (documents.filter s.succeeds).map (·.1) := by
  induction h with
  | nil => rfl
  | cons hjudge _ ih =>
    rcases judge_eq_ok hjudge with ⟨hsucceeds, v, rfl⟩ | ⟨hfails, stage, message, rfl, -⟩
    · simpa [hsucceeds, List.filterMap_cons, BatchResult.output?, Ordered.keys] using ih
    · simpa [hfails, List.filterMap_cons, BatchResult.output?, Ordered.keys] using ih

end Judged
end Session

/-- A batch of two lists of documents gives what two fresh sessions make of the
lists, put together; it ends with a fault where the first of them does.  The numbers
of a result agree with its records: there is one failure for each document that
fails, in their order, and a result under the name of each document that succeeds. -/
theorem run_document_by_document (s : Session) (h : s.trusting = false) :
    (∀ first second, (s.run (first ++ second)).1 =
      (s.reset.run first).1 >>= fun a => a.followedBy <$> (s.reset.run second).1) ∧
    ∀ documents r, (s.run documents).1 = .ok r →
      r.processed = documents.length ∧ r.processed = r.successful + r.failed ∧
      r.errors.length = r.failed ∧ r.failures.length = r.failed ∧
      r.errors = r.failures.map FailedDocument.summary ∧
      List.Forall₂ s.FailsAs (documents.filter fun d => !s.succeeds d) r.failures ∧
      ∀ name, name ∈ Ordered.keys r.results ↔
        ∃ d ∈ documents, s.succeeds d = true ∧ d.1 = name := by
  constructor
  · intro first second
    exact Session.run_append h first second
  · intro documents r hrun
    rw [Session.run_eq_judge h] at hrun
    obtain ⟨entries, hjudged, rfl⟩ := (Outcome.map_eq_ok _ _ _).mp hrun
    have hforall := (Outcome.mapM_eq_ok _ _ _).mp hjudged
    have hconsistent : (BatchResult.recordAll {} entries).Consistent :=
      BatchResult.consistent_recordAll ⟨rfl, rfl, rfl⟩
    have hlength : documents.length = entries.length := hforall.length_eq
    have hfailures := Session.failures_of_judged hforall
    have hnames := Session.names_of_judged hforall
    refine ⟨?_, hconsistent.processed, ?_, hconsistent.failed, hconsistent.errors, ?_, ?_⟩
    · simp [BatchResult.processed_recordAll, hlength]
    · simp [hconsistent.errors, hconsistent.failed]
    · simpa [BatchResult.failures_recordAll] using hfailures
    · intro name
      rw [BatchResult.results_recordAll, Ordered.mem_keys_update, hnames]
      simp [Ordered.keys, and_assoc]

def noteSession : Session :=
  .start ⟨[("note", ⟨.here, [("text", .shorthand (.ofTag "p" (by decide +kernel)))]⟩)], []⟩
    none false

def noteOf (text : Text) : Value :=
  .map [(.str "note", .map [(.str "text", .str text)])]

def noteDocuments : List (Text × Option Text) :=
  [("d", some "<r><p>1</p></r>"), ("e", none), ("d", some "<r><p>2</p></r>")]

def noteResult : BatchResult where
  processed := 3
  successful := 2
  failed := 1
  errors := ["e: XML is empty or not well-formed"]
  results := [("d", noteOf "2")]
  failures := [⟨"e", .validation, Session.invalidMessage⟩]

theorem run_noteDocuments : (noteSession.run noteDocuments).1 = .ok noteResult := by
  have hfirst : Reads { recover := false } (some "<r><p>1</p></r>")
      ⟨"r", [.element "p" [.text "1"]]⟩ :=
    Parser.reads_of_read "<r><p>1</p></r>".toList (by decide +kernel) (by decide +kernel)
      (by decide +kernel)
  have hsecond : Reads { recover := false } (some "<r><p>2</p></r>")
      ⟨"r", [.element "p" [.text "2"]]⟩ :=
    Parser.reads_of_read "<r><p>2</p></r>".toList (by decide +kernel) (by decide +kernel)
      (by decide +kernel)
  have hsound : ∀ t ∈ (["<r><p>1</p></r>", "<r><p>2</p></r>"] : List Text), ¬ Frayed (some t) := by
    rintro t ht ⟨t, ⟨⟩, h⟩
    revert t
    decide +kernel
  have hjudged : noteDocuments.mapM noteSession.judge =
      .ok [("d", .extracted (noteOf "1")), ("e", .failed .validation Session.invalidMessage),
        ("d", .extracted (noteOf "2"))] := by
    rw [Outcome.mapM_eq_ok]
    refine .cons ?_ (.cons rfl (.cons ?_ .nil))
    · exact Session.judge_of_reads hfirst (hsound _ (by simp)) rfl
    · exact Session.judge_of_reads hsecond (hsound _ (by simp)) rfl
  rw [Session.run_eq_judge rfl, hjudged]
  rfl

theorem run_noteDocuments_by_document : noteSession.trusting = false ∧
    (noteSession.run (noteDocuments ++ noteDocuments)).1 = .ok (noteResult.followedBy noteResult) ∧
    noteResult.processed = noteDocuments.length ∧
    noteResult.failures.length = noteResult.failed ∧
    (∀ name, name ∈ Ordered.keys noteResult.results ↔
      ∃ d ∈ noteDocuments, noteSession.succeeds d = true ∧ d.1 = name) := by
  have hrun : (noteSession.run noteDocuments).1 = .ok noteResult := run_noteDocuments
  obtain ⟨happend, hnumbers⟩ := run_document_by_document noteSession rfl
  obtain ⟨hprocessed, -, -, hfailed, -, -, hnames⟩ := hnumbers noteDocuments noteResult hrun
  refine ⟨rfl, ?_, hprocessed, hfailed, hnames⟩
  rw [happend, show noteSession.reset = noteSession from rfl, hrun]
  rfl

end XmlHarvest
