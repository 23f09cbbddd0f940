import XmlHarvest.Batch
import XmlHarvest.Proofs.Outcome
import XmlHarvest.Proofs.Text.Utf8

/-! # What a session does with a text

Whether a text is read, what is found in it and whether it is valid depend on
the text, on what reads for the parser and on its leniency, and on nothing that
happened before.  A step of a session changes the statistics and leaves the rest as
it is. -/
set_option autoImplicit false

namespace XmlHarvest

open Xml

/-- The root of the document that a text is. -/
def Reads (p : Parser) (text : Option Text) (root : Element) : Prop :=
  ∃ t, text = some t ∧ Document.isBlank t = false ∧
    p.read (Document.clean t) = .ok (.root root)

/-- A text whose cleaned form has no bytes. -/
def Unencodable (text : Option Text) (fault : Fault) : Prop :=
  ∃ t, text = some t ∧ Document.isBlank t = false ∧
    Document.bytes (Document.clean t) = .error fault

def Frayed (text : Option Text) : Prop :=
  ∃ t, text = some t ∧ Parser.looksLikeMarkup (Document.clean t) = false

namespace Document

theorem bytes_eq_ok {cs : Text} {b : List UInt8} : bytes cs = .ok b ↔
    ∃ chars, cs = Text.ofChars chars ∧ b = Text.Utf8.encodeChars chars := by
  rw [bytes, ← Text.Utf8.encode_eq_ok]
  cases Text.Utf8.encode cs <;> simp [Except.mapError]

end Document

/-- The program's reader reads the characters of its bytes. -/
theorem Xml.readBytes_encodeChars (recover : Bool) (cs : List Char) :
    readBytes recover (Text.Utf8.encodeChars cs) = read recover cs := by
  rw [readBytes, Text.Utf8.decode_encodeChars]

namespace Parser

variable {p q : Parser} {text : Option Text} {id : Option Text}

theorem read_eq_ok {cs : Text} {reading : Reading} : p.read cs = .ok reading ↔
    ∃ bytes, Document.bytes cs = .ok bytes ∧ p.reader p.recover bytes = reading := by
  rw [read, Outcome.bind_eq_ok]
  simp [Outcome.ofFault_eq_ok]

theorem read_eq_error {cs : Text} {failure : Failure} : p.read cs = .error failure ↔
    ∃ fault, Document.bytes cs = .error fault ∧ failure = .fault fault := by
  rw [read, Outcome.bind_eq_error]
  simp [Outcome.ofFault_eq_error, and_comm]

/-- Reading does not depend on what was counted. -/
theorem read_of_reset (h : q.reset = p.reset) : q.read = p.read := by
  have hreader : q.reader = p.reader := congrArg (·.reader) h
  have hrecover : q.recover = p.recover := congrArg (·.recover) h
  funext cs
  rw [read, read, hreader, hrecover]

theorem reads_of_reset (h : q.reset = p.reset) {root : Element} :
    Reads q text root ↔ Reads p text root := by
  rw [Reads, Reads, read_of_reset h]

theorem readText_eq_ok {t : Text} {document : Text} {root : Element} :
    p.readText t document = .ok root ↔ p.read (Document.clean t) = .ok (.root root) := by
  rw [readText, Outcome.bind_eq_ok]
  constructor
  · rintro ⟨reading, hreading, h⟩
    rw [hreading]
    cases reading with
    | root e =>
      have he : e = root := Except.ok.inj h
      rw [he]
    | rootless => cases h
    | refused detail => cases h
  · intro h
    exact ⟨_, h, rfl⟩

theorem readText_eq_fault {t : Text} {document : Text} {fault : Fault} :
    p.readText t document = .error (.fault fault) ↔
      Document.bytes (Document.clean t) = .error fault := by
  rw [readText, Outcome.bind_eq_error, read_eq_error]
  constructor
  · rintro (⟨fault', hfault, h⟩ | ⟨reading, -, h⟩)
    · cases h
      exact hfault
    · cases reading with
      | root e => cases h
      | rootless => cases h
      | refused detail => cases h
  · intro h
    exact .inl ⟨fault, h, rfl⟩

theorem kind_of_readText {t : Text} {document : Text} {e : Error}
    (h : p.readText t document = .error (.error e)) : e.kind = .parsing := by
  rcases (Outcome.bind_eq_error _ _ _).mp h with h | ⟨reading, -, h⟩
  · obtain ⟨fault, -, h⟩ := read_eq_error.mp h
    cases h
  · cases reading with
    | root e => cases h
    | rootless =>
      cases h
      rfl
    | refused detail =>
      cases h
      rfl

theorem parse_eq_ok {root : Element} : (p.parse text id).1 = .ok root ↔ Reads p text root := by
  cases text with
  | none => simp [parse, parsingError, Reads]
  | some t =>
    rw [parse, Reads]
    by_cases hblank : Document.isBlank t = true
    · simp [hblank, parsingError]
    · rw [if_neg hblank]
      simp only [Option.some.injEq, exists_eq_left', hblank, true_and]
      exact readText_eq_ok

theorem parse_eq_fault {fault : Fault} :
    (p.parse text id).1 = .error (.fault fault) ↔ Unencodable text fault := by
  cases text with
  | none => simp [parse, parsingError, Unencodable]
  | some t =>
    rw [parse, Unencodable]
    by_cases hblank : Document.isBlank t = true
    · simp [hblank, parsingError]
    · rw [if_neg hblank]
      simp only [Option.some.injEq, exists_eq_left', hblank, true_and]
      exact readText_eq_fault

/-- A text that is not read is reported as such. -/
theorem kind_of_parse {e : Error} (h : (p.parse text id).1 = .error (.error e)) :
    e.kind = .parsing := by
  cases text with
  | none =>
    cases h
    rfl
  | some t =>
    rw [parse] at h
    split at h
    · cases h
      rfl
    · exact kind_of_readText h

/-- A text is read when it consists of characters and something reads their bytes. -/
theorem reads_iff {t : Text} {root : Element} : Reads p (some t) root ↔
    Document.isBlank t = false ∧ ∃ cs, Document.clean t = Text.ofChars cs ∧
      p.reader p.recover (Text.Utf8.encodeChars cs) = .root root := by
  simp only [Reads, Option.some.injEq, exists_eq_left', read_eq_ok, Document.bytes_eq_ok]
  refine and_congr_right fun _ => ⟨?_, ?_⟩
  · rintro ⟨bytes, ⟨cs, hclean, rfl⟩, h⟩
    exact ⟨cs, hclean, h⟩
  · rintro ⟨cs, hclean, h⟩
    exact ⟨_, ⟨cs, hclean, rfl⟩, h⟩

theorem reads_of_read {t : Text} {root : Element} {recover : Bool} (cs : List Char)
    (hblank : Document.isBlank t = false) (hclean : Document.clean t = Text.ofChars cs)
    (h : Xml.read recover cs = .root root) : Reads { recover := recover } (some t) root := by
  have hbytes : readBytes recover (Text.Utf8.encodeChars cs) = .root root := by
    rw [readBytes_encodeChars, h]
  exact reads_iff.mpr ⟨hblank, cs, hclean, hbytes⟩

theorem isWellFormed_eq_true {t : Text} : p.isWellFormed t = .ok true ↔
    looksLikeMarkup (Document.clean t) = true ∧
      ∃ root, p.read (Document.clean t) = .ok (.root root) := by
  rw [isWellFormed]
  by_cases hmarkup : looksLikeMarkup (Document.clean t) = true
  · rw [if_pos hmarkup, and_iff_right hmarkup, Outcome.bind_eq_ok]
    constructor
    · rintro ⟨reading, hreading, h⟩
      cases reading with
      | root e => exact ⟨e, hreading⟩
      | rootless => cases h
      | refused detail => cases h
    · rintro ⟨root, hroot⟩
      exact ⟨_, hroot, rfl⟩
  · simp [hmarkup]

theorem isWellFormed_eq_error {t : Text} {failure : Failure} :
    p.isWellFormed t = .error failure ↔ looksLikeMarkup (Document.clean t) = true ∧
      p.read (Document.clean t) = .error failure := by
  rw [isWellFormed]
  by_cases hmarkup : looksLikeMarkup (Document.clean t) = true
  · rw [if_pos hmarkup, and_iff_right hmarkup, Outcome.bind_eq_error]
    refine or_iff_left ?_
    rintro ⟨reading, -, h⟩
    cases reading <;> cases h
  · simp [hmarkup]

theorem validate_fst_some {t : Text} : (p.validate (some t)).1 =
    if Document.isBlank t then .ok false else p.isWellFormed t := by
  rw [validate]
  split <;> rfl

/-- A text is valid exactly when it is read and looks like markup. -/
theorem validate_eq_true : (p.validate text).1 = .ok true ↔
    (∃ root, Reads p text root) ∧ ¬ Frayed text := by
  cases text with
  | none => simp [validate, Reads]
  | some t =>
    rw [validate_fst_some]
    by_cases hblank : Document.isBlank t = true
    · simp [hblank, Reads]
    · simp [hblank, Reads, Frayed, isWellFormed_eq_true, and_comm]

/-- Where validation does not end, the text has no bytes. -/
theorem validate_eq_error {failure : Failure} : (p.validate text).1 = .error failure ↔
    (∃ fault, Unencodable text fault ∧ failure = .fault fault) ∧ ¬ Frayed text := by
  cases text with
  | none => simp [validate, Unencodable]
  | some t =>
    rw [validate_fst_some]
    by_cases hblank : Document.isBlank t = true
    · simp [hblank, Unencodable]
    · simp [hblank, Unencodable, Frayed, isWellFormed_eq_error, read_eq_error, and_comm]

theorem reset_parse : (p.parse text id).2.reset = p.reset := by
  cases text with
  | none => rfl
  | some t =>
    rw [parse]
    split
    · rfl
    · rfl

theorem reset_validate : (p.validate text).2.reset = p.reset := by
  cases text with
  | none => rfl
  | some t =>
    rw [validate]
    split
    · rfl
    · rfl

end Parser

namespace Session

variable {s : Session} {text : Option Text} {id : Option Text}

theorem parse_fst :
    (s.parse text id).1 =
      (s.parser.parse text id).1 >>= fun root => (s.extract root).mapError (withDocument id) := by
  rw [parse]
  cases s.parser.parse text id with
  | mk root parser => cases root <;> rfl

/-- The failures of a text that is read are those of its extraction. -/
theorem parse_eq_error {failure : Failure} :
    (s.parse text id).1 = .error failure ↔
      (s.parser.parse text id).1 = .error failure ∨
        ∃ root inner, Reads s.parser text root ∧ s.extract root = .error inner ∧
          withDocument id inner = failure := by
  rw [parse_fst, Outcome.bind_eq_error]
  simp only [Parser.parse_eq_ok, Outcome.mapError_eq_error, exists_and_left]

/-- A batch runs a text that is valid. -/
def Admits (s : Session) (text : Option Text) : Prop := (s.validate text).1 = .ok true

/-- A batch records a text that is not. -/
def Rejects (s : Session) (text : Option Text) : Prop := (s.validate text).1 = .ok false

theorem reset_parse : (s.parse text id).2.reset = s.reset := by
  have h : (s.parser.parse text id).2.reset = s.parser.reset := Parser.reset_parse
  rw [reset, reset, ← h]
  rfl

theorem reset_validate : (s.validate text).2.reset = s.reset := by
  rw [validate]
  split
  · rfl
  · have h : (s.parser.validate text).2.reset = s.parser.reset := Parser.reset_validate
    rw [reset, reset, ← h]

theorem validate_reset : (s.reset.validate text).1 = (s.validate text).1 := by
  rw [validate, validate, reset]
  split
  · rfl
  · cases text with
    | none => rfl
    | some t =>
      simp only [Parser.validate]
      split
      · rfl
      · rfl

theorem validate_of_reset {s' : Session} (h : s'.reset = s.reset) :
    (s'.validate text).1 = (s.validate text).1 := by
  rw [← validate_reset, h, validate_reset]

theorem admits_reset : s.reset.Admits text ↔ s.Admits text := by
  rw [Admits, Admits, validate_reset]

/-- What a batch does with a document that is admitted. -/
theorem runDocument_of_admits {r : BatchResult} {name : Text} (h : s.Admits text) :
    s.runDocument r name text =
      match (s.validate text).2.parse text (some name) with
      | (.ok v, after) => (.ok (r.recordSuccess name v), after)
      | (.error (.error e), after) =>
        (.ok (r.recordFailure ⟨name, failedStage e, e.message⟩), after)
      | (.error (.fault f), after) => (.error (.fault f), after) := by
  rw [Admits] at h
  rw [runDocument]
  generalize s.validate text = answer at h ⊢
  obtain ⟨valid, after⟩ := answer
  cases h
  rfl

theorem runDocument_of_rejects {r : BatchResult} {name : Text} (h : s.Rejects text) :
    s.runDocument r name text =
      (.ok (r.recordFailure ⟨name, .validation, invalidMessage⟩), (s.validate text).2) := by
  obtain ⟨valid, after, hvalidate⟩ : ∃ valid after, s.validate text = (valid, after) := ⟨_, _, rfl⟩
  rw [Rejects, hvalidate] at h
  cases h
  simp only [runDocument, hvalidate]

theorem runDocument_of_fails {r : BatchResult} {name : Text} {failure : Failure}
    (h : (s.validate text).1 = .error failure) :
    s.runDocument r name text = (.error failure, (s.validate text).2) := by
  obtain ⟨valid, after, hvalidate⟩ : ∃ valid after, s.validate text = (valid, after) := ⟨_, _, rfl⟩
  rw [hvalidate] at h
  cases h
  simp only [runDocument, hvalidate]

/-- A text is admitted or rejected, or cannot be validated. -/
theorem validate_cases (s : Session) (text : Option Text) :
    s.Admits text ∨ s.Rejects text ∨ ∃ failure, (s.validate text).1 = .error failure := by
  rw [Admits, Rejects]
  cases (s.validate text).1 with
  | error failure => exact .inr (.inr ⟨failure, rfl⟩)
  | ok valid => cases valid <;> simp

theorem reset_runDocument {r : BatchResult} {name : Text} :
    (s.runDocument r name text).2.reset = s.reset := by
  rcases s.validate_cases text with h | h | ⟨failure, h⟩
  · have hparse : ((s.validate text).2.parse text (some name)).2.reset =
        (s.validate text).2.reset := reset_parse
    rw [reset_validate] at hparse
    rw [runDocument_of_admits h, ← hparse]
    split <;> simp_all
  · rw [runDocument_of_rejects h]
    exact reset_validate
  · rw [runDocument_of_fails h]
    exact reset_validate

end Session
end XmlHarvest
