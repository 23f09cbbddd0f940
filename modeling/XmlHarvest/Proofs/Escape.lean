import XmlHarvest.Batch
import XmlHarvest.Proofs.Agenda
import XmlHarvest.Proofs.Field
import XmlHarvest.Proofs.Validation

/-! # Bare faults

An evaluation reports its failures as errors, with few exceptions.  A text with
surrogates has no bytes.  The report on a modifier's failure shows the values and the
failure, a mapper looks a value up under its text, and a log of all details shows values,
parameters and defaults.  Where such bytes or texts cannot be formed, a bare fault leaves
the evaluation, and with it the batch. -/
set_option autoImplicit false

namespace XmlHarvest

open Xml

/-- What keeps the report on a modifier's failure from being written. -/
inductive Unreportable (values : List Value) (cause : Failure) : Fault → Prop
  /-- A long integer occurs in the values. -/
  | source (long : ¬ (Registry.source values).Writable) : Unreportable values cause .longInteger
  /-- The failure itself has no text. -/
  | reason {fault : Fault} (short : (Registry.source values).Writable)
      (wordless : cause.text? = .error fault) : Unreportable values cause fault

/-- A bare fault leaves the evaluation of a full field. -/
inductive FullField.Escapes (s : Scope) (e : Element) (f : FullField) : Fault → Prop
  /-- The log of all details cannot show what a modifier is called with. -/
  | withheld {ref : ModifierRef} {values : List Value} {transform : Transform}
      (applied : s.Applies e f.chain ref values)
      (known : s.registry.resolve ref.name = .ok transform)
      (withheld : s.registry.Withheld ref values) : Escapes s e f .longInteger
  /-- A modifier fails in a way that cannot be reported. -/
  | modifier {ref : ModifierRef} {values : List Value} {transform : Transform} {cause : Failure}
      {fault : Fault} (applied : s.Applies e f.chain ref values)
      (known : s.registry.resolve ref.name = .ok transform)
      (shown : ¬ s.registry.Withheld ref values)
      (failed : transform (values ++ ref.params) = .error cause)
      (unreportable : Unreportable values cause fault) : Escapes s e f fault
  /-- A mapper is given a value without a text, or falls back on a default that the
  log of all details cannot show. -/
  | mapper {name : Text} {m : Mapper} {v : Value} (value : s.runChain e f.chain = .ok v)
      (named : f.mapper = some name) (declared : Ordered.get? s.mappers name = some m)
      (long : ¬ v.Writable ∨ m.Withheld v s.registry.debug) : Escapes s e f .longInteger

def ErrorKind.isReported : ErrorKind → Bool
  | .parsing | .pathNotFound | .unknownModifier | .unknownMapper | .transformation => true
  | _ => false

def Failure.Reported : Failure → Prop
  | .error e => e.kind.isReported = true
  | .fault _ => True

variable {s : Scope} {e : Element} {fault : Fault}

section Modifiers

variable {r : Registry} {ref : ModifierRef} {values : List Value} {cause : Failure}

theorem report_eq_error :
    Registry.report ref values cause = .error fault ↔ Unreportable values cause fault := by
  have hsource := Value.display?_failsIff (Registry.source values)
  rw [Registry.report, Outcome.bind_eq_error, hsource]
  constructor
  · rintro (⟨rfl, hlong⟩ | ⟨shown, hshown, h⟩)
    · exact .source hlong
    · have hshort := not_not.mp (hsource.eq_ok_iff.mp ⟨shown, hshown⟩)
      rw [Outcome.bind_eq_error] at h
      simp only [reduceCtorEq, and_false, exists_false, or_false] at h
      exact .reason hshort h
  · intro h
    cases h with
    | source hlong => exact .inl ⟨rfl, hlong⟩
    | reason hshort hwordless =>
      obtain ⟨shown, hshown⟩ := hsource.eq_ok_iff.mpr (not_not.mpr hshort)
      exact .inr ⟨shown, hshown, (Outcome.bind_eq_error _ _ _).mpr (.inl hwordless)⟩

theorem transformation_eq_fault :
    Registry.transformation ref values cause = .fault fault ↔ Unreportable values cause fault := by
  rw [← report_eq_error, Registry.transformation]
  cases Registry.report ref values cause with
  | error f => simp
  | ok message => simp [Failure.of]

/-- Applying a reference ends in a bare fault when a modifier that is known cannot be
shown in the log, or fails in a way that cannot be reported. -/
theorem apply_eq_fault :
    r.apply ref values = .error (.fault fault) ↔
      ∃ transform, r.resolve ref.name = .ok transform ∧
        (r.Withheld ref values ∧ fault = .longInteger ∨
          ¬ r.Withheld ref values ∧ ∃ cause, transform (values ++ ref.params) = .error cause ∧
            Unreportable values cause fault) := by
  rw [apply_eq_error]
  simp only [transformation_eq_fault, Failure.fault.injEq]
  constructor
  · rintro (h | h)
    · cases resolve_eq_error h
    · exact h
  · exact .inr

theorem reported_of_apply {failure : Failure} (h : r.apply ref values = .error failure) :
    failure.Reported := by
  rcases apply_eq_error.mp h with h | ⟨transform, -, ⟨-, rfl⟩ | ⟨-, cause, -, rfl⟩⟩
  · rw [resolve_eq_error h]
    rfl
  · trivial
  · rw [Registry.transformation]
    split
    · trivial
    · rfl

end Modifiers

section Fields

variable {f : FullField} {failure : Failure}

theorem runFull_eq_fault :
    s.runFull e f = .error (.fault fault) ↔ f.Escapes s e fault := by
  rw [runFull_eq_error, runChain_eq_error]
  constructor
  · rintro ((h | ⟨ref, values, happlied, h⟩) | ⟨v, name, hvalue, hnamed, h⟩)
    · obtain ⟨_, p, _, segment, -, -, -, h⟩ := textsAt_eq_error.mp h
      cases h
    · obtain ⟨transform, hknown, ⟨hwithheld, rfl⟩ | ⟨hshown, cause, hfailed, hreport⟩⟩ :=
        apply_eq_fault.mp h
      · exact .withheld happlied hknown hwithheld
      · exact .modifier happlied hknown hshown hfailed hreport
    · rcases Mappers.map_eq_error.mp h with ⟨-, h⟩ | ⟨m, hdeclared, hlong, h⟩
      · cases h
      · cases h
        exact .mapper hvalue hnamed hdeclared hlong
  · intro h
    cases h with
    | withheld happlied hknown hwithheld =>
      exact .inl (.inr ⟨_, _, happlied, apply_eq_fault.mpr ⟨_, hknown, .inl ⟨hwithheld, rfl⟩⟩⟩)
    | modifier happlied hknown hshown hfailed hreport =>
      exact .inl (.inr ⟨_, _, happlied,
        apply_eq_fault.mpr ⟨_, hknown, .inr ⟨hshown, _, hfailed, hreport⟩⟩⟩)
    | mapper hvalue hnamed hdeclared hlong =>
      exact .inr ⟨_, _, hvalue, hnamed, Mappers.map_eq_error.mpr (.inr ⟨_, hdeclared, hlong, rfl⟩)⟩

theorem reported_of_pathNotFound {segment path : Text} :
    (Failure.error ⟨.pathNotFound segment, { path := some path }⟩).Reported := rfl

theorem reported_of_runFull (h : s.runFull e f = .error failure) : failure.Reported := by
  rcases runFull_eq_error.mp h with h | ⟨v, name, -, -, h⟩
  · rcases runChain_eq_error.mp h with h | ⟨ref, values, -, h⟩
    · obtain ⟨_, p, _, segment, -, -, -, rfl⟩ := textsAt_eq_error.mp h
      exact reported_of_pathNotFound
    · exact reported_of_apply h
  · rcases Mappers.map_eq_error.mp h with ⟨-, rfl⟩ | ⟨m, -, -, rfl⟩
    · rfl
    · trivial

end Fields

section Visits

variable {names : List Text} {v : Visit} {failure : Failure}

theorem reported_outward : (failure.outward names).Reported ↔ failure.Reported := by
  induction names generalizing failure with
  | nil => rfl
  | cons name names ih =>
    cases names with
    | nil => rfl
    | cons collection outer =>
      rw [Failure.outward, ih]
      cases failure with
      | error e => rfl
      | fault f => rfl

/-- A bare fault leaves a step of an evaluation. -/
def Visit.Escapes (s : Scope) (v : Visit) (fault : Fault) : Prop :=
  ∃ f, v.action = .full f ∧ f.Escapes s v.element fault

/-- A step that only follows a path fails with an error that says so. -/
theorem follows_of_run {collection : Option Text} {action : Action}
    (h : action.run s collection e = .error failure) :
    (∃ segment place, failure = .error ⟨.pathNotFound segment, place⟩) ∨
      ∃ f, action = .full f ∧ s.runFull e f = .error failure := by
  cases action with
  | reach p segments =>
    obtain ⟨inner, hinner, rfl⟩ := Outcome.mapError_eq_error.mp h
    obtain ⟨segment, -, rfl⟩ := follow_eq_error.mp (Outcome.effect_eq_error.mp hinner)
    exact .inl ⟨segment, _, rfl⟩
  | text p =>
    obtain ⟨segment, -, rfl⟩ := textAt_eq_error.mp (Outcome.effect_eq_error.mp h)
    exact .inl ⟨segment, _, rfl⟩
  | full f => exact .inr ⟨f, rfl, Outcome.effect_eq_error.mp h⟩

theorem run_eq_fault : v.run s = .error (.fault fault) ↔ v.Escapes s fault := by
  rw [Visit.run, outward, Outcome.mapError_eq_error]
  simp only [outward_eq_fault, exists_eq_right]
  constructor
  · intro h
    rcases follows_of_run h with ⟨segment, place, h⟩ | ⟨f, haction, h⟩
    · cases h
    · exact ⟨f, haction, runFull_eq_fault.mp h⟩
  · rintro ⟨f, haction, h⟩
    rw [haction]
    exact Outcome.effect_eq_error.mpr (runFull_eq_fault.mpr h)

theorem reported_of_run (h : v.run s = .error failure) : failure.Reported := by
  obtain ⟨inner, hinner, rfl⟩ := Outcome.mapError_eq_error.mp h
  rw [reported_outward]
  rcases follows_of_run hinner with ⟨segment, place, rfl⟩ | ⟨f, -, h⟩
  · rfl
  · exact reported_of_runFull h

end Visits

namespace Session

def scope (s : Session) : Scope := ⟨s.registry, s.schema.mappers⟩

/-- A bare fault leaves the evaluation of a text. -/
inductive Escapes (s : Session) (text : Option Text) (fault : Fault) : Prop
  /-- The text has no bytes. -/
  | encoding (unencodable : Unencodable text fault) : Escapes s text fault
  /-- The fault leaves the first step that fails. -/
  | evaluation {root : Element} {before after : List Visit} {visit : Visit}
      (reads : Reads s.parser text root)
      (visits : s.schema.visits root = before ++ visit :: after)
      (passed : ∀ v ∈ before, v.run s.scope = .ok ())
      (escapes : visit.Escapes s.scope fault) : Escapes s text fault

/-- A bare fault leaves a document of a batch, which ends the batch. -/
inductive Stops (s : Session) (text : Option Text) (fault : Fault) : Prop
  /-- The fault leaves its validation. -/
  | validation (judged : s.trusting = false) (sound : ¬ Frayed text)
      (unencodable : Unencodable text fault) : Stops s text fault
  /-- The document is admitted, and the fault leaves its evaluation. -/
  | evaluation (admitted : s.Admits text) (escapes : s.Escapes text fault) : Stops s text fault

variable {s : Session} {text : Option Text} {id : Option Text} {fault : Fault}

theorem withDocument_eq_fault {failure : Failure} :
    withDocument id failure = .fault fault ↔ failure = .fault fault := by
  cases failure with
  | fault f => rfl
  | error e =>
    rw [withDocument]
    split <;> simp

theorem reported_withDocument {failure : Failure} (h : failure.Reported) :
    (withDocument id failure).Reported := by
  cases failure with
  | fault f => exact h
  | error e =>
    rw [withDocument]
    split
    · exact h
    · exact h

theorem parse_eq_fault : (s.parse text id).1 = .error (.fault fault) ↔ s.Escapes text fault := by
  rw [parse_eq_error]
  constructor
  · rintro (h | ⟨root, inner, hroot, hextract, h⟩)
    · exact .encoding (Parser.parse_eq_fault.mp h)
    · rw [withDocument_eq_fault.mp h, extract, extract_eq_error] at hextract
      obtain ⟨before, visit, after, hvisits, hbefore, hvisit⟩ := hextract
      exact .evaluation hroot hvisits hbefore (run_eq_fault.mp hvisit)
  · intro h
    cases h with
    | encoding hbytes => exact .inl (Parser.parse_eq_fault.mpr hbytes)
    | evaluation hroot hvisits hbefore hvisit =>
      refine .inr ⟨_, .fault fault, hroot, ?_, rfl⟩
      exact (extract_eq_error _ _ _ _).mpr
        ⟨_, _, _, hvisits, hbefore, run_eq_fault.mpr hvisit⟩

theorem reported_of_parse {failure : Failure} (h : (s.parse text id).1 = .error failure) :
    failure.Reported := by
  rcases parse_eq_error.mp h with h | ⟨root, inner, -, hextract, rfl⟩
  · cases failure with
    | error e =>
      rw [Failure.Reported, Parser.kind_of_parse h]
      rfl
    | fault f => trivial
  · obtain ⟨before, visit, after, -, -, hvisit⟩ := (extract_eq_error _ _ _ _).mp hextract
    exact reported_withDocument (reported_of_run hvisit)

theorem escapes_reset : s.reset.Escapes text fault ↔ s.Escapes text fault := by
  have hreads : ∀ root, Reads s.reset.parser text root ↔ Reads s.parser text root := fun root =>
    Parser.reads_of_reset rfl
  constructor
  · rintro (hbytes | ⟨hroot, hvisits, hbefore, hvisit⟩)
    · exact .encoding hbytes
    · exact .evaluation ((hreads _).mp hroot) hvisits hbefore hvisit
  · rintro (hbytes | ⟨hroot, hvisits, hbefore, hvisit⟩)
    · exact .encoding hbytes
    · exact .evaluation ((hreads _).mpr hroot) hvisits hbefore hvisit

theorem stops_reset : s.reset.Stops text fault ↔ s.Stops text fault := by
  constructor
  · rintro (⟨hjudged, hsound, hbytes⟩ | ⟨hadmits, hescapes⟩)
    · exact .validation hjudged hsound hbytes
    · exact .evaluation (admits_reset.mp hadmits) (escapes_reset.mp hescapes)
  · rintro (⟨hjudged, hsound, hbytes⟩ | ⟨hadmits, hescapes⟩)
    · exact .validation hjudged hsound hbytes
    · exact .evaluation (admits_reset.mpr hadmits) (escapes_reset.mpr hescapes)

theorem escapes_of_reset {t : Session} (h : t.reset = s.reset) :
    t.Escapes text fault ↔ s.Escapes text fault := by
  rw [← escapes_reset, h, escapes_reset]

theorem stops_of_reset {t : Session} (h : t.reset = s.reset) :
    t.Stops text fault ↔ s.Stops text fault := by
  rw [← stops_reset, h, stops_reset]

theorem validate_eq_error {failure : Failure} : (s.validate text).1 = .error failure ↔
    s.trusting = false ∧ ¬ Frayed text ∧
      ∃ fault, Unencodable text fault ∧ failure = .fault fault := by
  rw [validate]
  split
  · rename_i htrusting
    simp [htrusting]
  · rename_i htrusting
    change (s.parser.validate text).1 = _ ↔ _
    rw [Parser.validate_eq_error, and_iff_right (Bool.eq_false_iff.mpr htrusting), and_comm]

theorem stops_iff_of_admits (h : s.Admits text) : s.Stops text fault ↔ s.Escapes text fault := by
  constructor
  · rintro (⟨-, -, hbytes⟩ | ⟨-, hescapes⟩)
    · exact .encoding hbytes
    · exact hescapes
  · exact .evaluation h

theorem not_stops_of_rejects (h : s.Rejects text) : ¬ s.Stops text fault := by
  rintro (⟨hjudged, hsound, hbytes⟩ | ⟨hadmits, -⟩)
  · have herror := validate_eq_error.mpr ⟨hjudged, hsound, _, hbytes, rfl⟩
    cases h.symm.trans herror
  · cases h.symm.trans hadmits

theorem stops_iff_of_fails {failure : Failure} (h : (s.validate text).1 = .error failure) :
    s.Stops text fault ↔ failure = .fault fault := by
  obtain ⟨hjudged, hsound, found, hbytes, rfl⟩ := validate_eq_error.mp h
  constructor
  · rintro (⟨-, -, hbytes'⟩ | ⟨hadmits, -⟩)
    · rw [validate_eq_error.mpr ⟨hjudged, hsound, _, hbytes', rfl⟩] at h
      exact (Except.error.inj h).symm
    · cases h.symm.trans hadmits
  · rintro ⟨⟩
    exact .validation hjudged hsound hbytes

/-- A document of a batch ends the batch when a bare fault leaves its validation or its
evaluation. -/
theorem runDocument_returns {r : BatchResult} {name : Text} :
    (∃ r', (s.runDocument r name text).1 = .ok r') ↔ ∀ fault, ¬ s.Stops text fault := by
  rcases s.validate_cases text with hadmits | hrejects | ⟨failure, hfails⟩
  · have hstops : ∀ fault, s.Stops text fault ↔
        ((s.validate text).2.parse text (some name)).1 = .error (.fault fault) := fun fault => by
      rw [stops_iff_of_admits hadmits, parse_eq_fault, escapes_of_reset reset_validate]
    simp only [hstops, runDocument_of_admits hadmits]
    rcases (s.validate text).2.parse text (some name) with ⟨(e | f) | v, after⟩ <;> simp
  · rw [runDocument_of_rejects hrejects]
    exact iff_of_true ⟨_, rfl⟩ fun _ => not_stops_of_rejects hrejects
  · obtain ⟨-, -, fault, -, rfl⟩ := validate_eq_error.mp hfails
    rw [runDocument_of_fails hfails]
    refine iff_of_false (by simp) fun hnone => ?_
    exact hnone fault ((stops_iff_of_fails hfails).mpr rfl)

theorem runFrom_returns {r : BatchResult} {documents : List (Text × Option Text)} :
    (∃ r', (s.runFrom r documents).1 = .ok r') ↔
      ∀ document ∈ documents, ∀ fault, ¬ s.Stops document.2 fault := by
  induction documents generalizing s r with
  | nil => simp [runFrom]
  | cons document rest ih =>
    obtain ⟨name, text⟩ := document
    have hfirst : (∃ r', (s.runDocument r name text).1 = .ok r') ↔ _ := runDocument_returns
    have hreset : (s.runDocument r name text).2.reset = s.reset := reset_runDocument
    rw [List.forall_mem_cons, ← hfirst, runFrom]
    revert hreset
    rcases s.runDocument r name text with ⟨_ | r₁, s₁⟩
    · simp
    · intro hreset
      simp only [ih, Except.ok.injEq, exists_eq', true_and, stops_of_reset hreset]

end Session

/-- An evaluation reports its failures, except for the bare faults of a text without bytes
and those that leave its first failing step; and a batch returns exactly when no such fault
leaves the validation of a document, or the evaluation of one that it admits. -/
theorem session_returns_or_reports (s : Session) :
    (∀ text id e, (s.parse text id).1 = .error (.error e) → e.kind.isReported = true) ∧
      (∀ text id fault,
        (s.parse text id).1 = .error (.fault fault) ↔ s.Escapes text fault) ∧
      ∀ documents, (∃ r, (s.run documents).1 = .ok r) ↔
        ∀ document ∈ documents, ∀ fault, ¬ s.Stops document.2 fault := by
  refine ⟨?_, ?_, ?_⟩
  · intro text id e h
    exact Session.reported_of_parse h
  · intro text id fault
    exact Session.parse_eq_fault
  · intro documents
    exact Session.runFrom_returns

/-- A mapper that sees what the modifier `constant` makes of a text. -/
def mappedSchema : Schema where
  collections := [("c", ⟨.here, [("f", .full ⟨.single ⟨["a"], by decide, by decide +kernel⟩
    [⟨"constant", [], by decide +kernel⟩], some "m"⟩)]⟩)]
  mappers := [("m", ⟨"m", .null, []⟩)]

def constantSession (v : Value) : Session :=
  .start mappedSchema (some (.ofTable [("constant", .function fun _ => .ok v)])) false

theorem reads_bare : Reads { recover := false } (some "<r><a/></r>") ⟨"r", [.element "a" []]⟩ :=
  Parser.reads_of_read "<r><a/></r>".toList (by decide +kernel) (by decide +kernel)
    (by decide +kernel)

theorem constantSession_escapes {v : Value} (hlong : ¬ v.Writable) :
    (constantSession v).Escapes (some "<r><a/></r>") .longInteger := by
  have hvalue : (constantSession v).scope.runChain ⟨"r", [.element "a" []]⟩
      (.single ⟨["a"], by decide, by decide +kernel⟩ [⟨"constant", [], by decide +kernel⟩]) =
        .ok v := by
    rfl
  have hvisits : (constantSession v).schema.visits ⟨"r", [.element "a" []]⟩ = [] ++ _ :: [] := rfl
  exact .evaluation reads_bare hvisits (List.forall_mem_nil _)
    ⟨_, rfl, .mapper hvalue rfl rfl (.inl hlong)⟩

theorem constantSession_admits {v : Value} :
    (constantSession v).Admits (some "<r><a/></r>") := by
  refine Session.admits_iff.mpr (.inr ⟨⟨_, reads_bare⟩, ?_⟩)
  rintro ⟨t, ⟨⟩, h⟩
  revert h
  decide +kernel

/-- A text of a few characters ends a batch when a modifier makes a long integer of
it. -/
theorem long_integer_ends_batch : (∃ fault,
    ((constantSession (.int (tenTo digitLimit))).parse (some "<r><a/></r>") none).1 =
      .error (.fault fault)) ∧
    ¬ ∃ r, ((constantSession (.int (tenTo digitLimit))).run
      [("d", some "<r><a/></r>")]).1 = .ok r := by
  have hlong : ¬ (Value.int (tenTo digitLimit)).Writable := Value.not_writable_power (Nat.le_refl _)
  have hescapes := constantSession_escapes hlong
  refine ⟨⟨.longInteger, Session.parse_eq_fault.mpr hescapes⟩, ?_⟩
  intro hreturns
  exact Session.runFrom_returns.mp hreturns _ List.mem_cons_self _
    (.evaluation constantSession_admits hescapes)

end XmlHarvest
