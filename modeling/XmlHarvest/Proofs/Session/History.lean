import Mathlib.Data.List.Induction
import XmlHarvest.Proofs.Batch

/-! # Sessions have no memory

Texts are parsed, validated, run in batches and the statistics reset, in any order.  What
comes before a step changes the counters and nothing else, and a counter is seen only in
the name that an error gives to a text without a name: it is the number of texts handed to
the parser since the statistics were last reset. -/
set_option autoImplicit false

namespace XmlHarvest

open Xml

/-- A text that a parser counts when it is asked to parse it. -/
def isCounted (text : Option Text) : Bool := text.any fun t => !Document.isBlank t

namespace Parser

variable {p p' : Parser} {text : Option Text} {id : Option Text}

/-- A name under which errors report a text. -/
def Named (id : Option Text) : Prop := ∃ name, id = some name ∧ name ≠ []

theorem documentName_of_named (h : Named id) (m n : Nat) : documentName id m = documentName id n := by
  obtain ⟨name, hid, hname⟩ := h
  subst hid
  simp [documentName, hname]

theorem documentName_of_not_named (h : ¬ Named id) (n : Nat) :
    documentName id n = "parse_" ++ toString n := by
  cases id with
  | none => rfl
  | some name =>
    by_cases hname : name = []
    · simp [documentName, hname]
    · exact absurd ⟨name, rfl, hname⟩ h

theorem parsed_parse :
    (p.parse text id).2.parsed = p.parsed + if isCounted text then 1 else 0 := by
  cases text with
  | none => rfl
  | some t =>
    rw [parse]
    by_cases hblank : Document.isBlank t = true
    · simp [isCounted, hblank]
    · simp [isCounted, hblank]

theorem parsed_validate : (p.validate text).2.parsed = p.parsed := by
  cases text with
  | none => rfl
  | some t =>
    rw [validate]
    split
    · rfl
    · rfl

/-- A text that is not read is reported alike under each name, or has no bytes. -/
theorem readText_eq_error {t : Text}
    (h : ∀ root, p.read (Document.clean t) ≠ .ok (.root root)) :
    (∃ failure, ∀ document, p.readText t document = .error failure) ∨
      ∃ problem content, ∀ document, p.readText t document =
        .error (.error ⟨.parsing problem content, { document := some document }⟩) := by
  cases hread : p.read (Document.clean t) with
  | error failure =>
    left
    refine ⟨failure, ?_⟩
    intro document
    rw [readText, hread]
    rfl
  | ok reading =>
    cases reading with
    | root root => exact absurd hread (h root)
    | rootless =>
      refine .inr ⟨.noRoot, some (Error.excerpt t), ?_⟩
      intro document
      rw [readText, hread]
      rfl
    | refused detail =>
      refine .inr ⟨.malformed detail, some (Error.excerpt t), ?_⟩
      intro document
      rw [readText, hread]
      rfl

/-- The counter of a parser is seen only in the name of a text that is not read. -/
theorem parse_of_reset (text : Option Text) (id : Option Text) (hreset : p'.reset = p.reset) :
    (p'.parse text id).1 = (p.parse text id).1 ∨
      isCounted text = true ∧ ¬ Named id ∧ ∃ problem content, ∀ q : Parser, q.reset = p.reset →
        (q.parse text id).1 = .error (.error ⟨.parsing problem content,
          { document := some ("parse_" ++ toString (q.parsed + 1)) }⟩) := by
  cases text with
  | none => exact Or.inl rfl
  | some t =>
    by_cases hblank : Document.isBlank t = true
    · simp [parse, hblank]
    · have hcounted : isCounted (some t) = true := by simp [isCounted, hblank]
      have hparse : ∀ q : Parser, q.reset = p.reset →
          (q.parse (some t) id).1 = p.readText t (documentName id (q.parsed + 1)) := by
        intro q hq
        have hread : Parser.read { q with parsed := q.parsed + 1 } = p.read := read_of_reset hq
        simp only [parse, hblank, if_false, Bool.false_eq_true, readText, hread]
      rw [hparse p' hreset, hparse p rfl]
      by_cases hnamed : Named id
      · left
        rw [documentName_of_named hnamed]
      · by_cases hroot : ∃ root, p.read (Document.clean t) = .ok (.root root)
        · left
          obtain ⟨root, hroot⟩ := hroot
          rw [readText_eq_ok.mpr hroot, readText_eq_ok.mpr hroot]
        · rcases readText_eq_error (not_exists.mp hroot) with ⟨failure, hfailure⟩ | herror
          · left
            rw [hfailure, hfailure]
          · right
            obtain ⟨problem, content, herror⟩ := herror
            refine ⟨hcounted, hnamed, problem, content, ?_⟩
            intro q hq
            rw [hparse q hq, herror, documentName_of_not_named hnamed]

end Parser

namespace Session

inductive Step where
  | parse (text : Option Text) (id : Option Text)
  | validate (text : Option Text)
  | batch (documents : List (Text × Option Text))
  | reset

def perform (s : Session) : Step → Session
  | .parse text id => (s.parse text id).2
  | .validate text => (s.validate text).2
  | .batch documents => (s.run documents).2
  | .reset => s.reset

def after (s : Session) (steps : List Step) : Session := steps.foldl perform s

/-- A bare fault leaves a text, which ends a batch. -/
def Ends (s : Session) (text : Option Text) (id : Option Text) : Prop :=
  ∃ fault, (s.parse text id).1 = .error (.fault fault)

instance (s : Session) (text : Option Text) (id : Option Text) : Decidable (s.Ends text id) :=
  match h : (s.parse text id).1 with
  | .ok _ => .isFalse (by simp [Ends, h])
  | .error (.error _) => .isFalse (by simp [Ends, h])
  | .error (.fault fault) => .isTrue ⟨fault, h⟩

/-- The texts that a batch hands to the parser: those that are admitted, up to the one that
ends the batch. -/
def batchTexts (s : Session) : List (Text × Option Text) → List (Option Text)
  | [] => []
  | (name, text) :: rest =>
    match (s.validate text).1 with
    | .ok true => text :: if s.Ends text (some name) then [] else s.batchTexts rest
    | .ok false => s.batchTexts rest
    | .error _ => []

def parsedTexts (s : Session) : Step → List (Option Text)
  | .parse text _ => [text]
  | .validate _ => []
  | .batch documents => s.batchTexts documents
  | .reset => []

def Step.isReset : Step → Bool
  | .reset => true
  | _ => false

def sinceReset (steps : List Step) : List Step :=
  (steps.reverse.takeWhile fun step => !step.isReset).reverse

/-- The number of texts parsed since the statistics were last reset.  Each step is looked
at as a step of the session `s`. -/
def parses (s : Session) (steps : List Step) : Nat :=
  ((sinceReset steps).flatMap s.parsedTexts).countP isCounted

variable {s s' : Session} {text : Option Text} {id : Option Text} {r : BatchResult} {name : Text}
  {documents : List (Text × Option Text)} {step : Step} {steps : List Step}

theorem parsed_parse :
    (s.parse text id).2.parser.parsed = s.parser.parsed + if isCounted text then 1 else 0 := by
  rw [parse]
  exact Parser.parsed_parse

theorem parsed_validate : (s.validate text).2.parser.parsed = s.parser.parsed := by
  rw [validate]
  split
  · rfl
  · exact Parser.parsed_validate

/-! ## One step -/

/-- A step is answered alike in two sessions that differ in their counters, except that an
error may name a text without a name by the counter. -/
theorem parse_of_reset_cases (text : Option Text) (id : Option Text)
    (hreset : s'.reset = s.reset) :
    (s'.parse text id).1 = (s.parse text id).1 ∨
      isCounted text = true ∧ ¬ Parser.Named id ∧
        ∃ problem content, ∀ q : Session, q.reset = s.reset →
        (q.parse text id).1 = .error (.error ⟨.parsing problem content,
          { document := some ("parse_" ++ toString (q.parser.parsed + 1)) }⟩) := by
  have hparser : ∀ q : Session, q.reset = s.reset → q.parser.reset = s.parser.reset := by
    intro q hq
    exact congrArg Session.parser hq
  have hextract : s'.extract = s.extract := by
    funext root
    exact congrArg (·.extract root) hreset
  rcases Parser.parse_of_reset text id (hparser s' hreset) with hsame | hdiffers
  · left
    rw [parse_fst, parse_fst, hsame, hextract]
  · right
    obtain ⟨hcounted, hnamed, problem, content, herror⟩ := hdiffers
    refine ⟨hcounted, hnamed, problem, content, ?_⟩
    intro q hq
    rw [parse_fst, herror q.parser (hparser q hq)]
    rfl

theorem parse_of_named (hreset : s'.reset = s.reset) (hid : Parser.Named id) :
    (s'.parse text id).1 = (s.parse text id).1 := by
  rcases parse_of_reset_cases text id hreset with hsame | hdiffers
  · exact hsame
  · exact absurd hid hdiffers.2.1

theorem ends_of_reset (hreset : s'.reset = s.reset) : s'.Ends text id ↔ s.Ends text id := by
  rw [Ends, Ends]
  rcases parse_of_reset_cases text id hreset with hsame | hdiffers
  · rw [hsame]
  · obtain ⟨-, -, problem, content, herror⟩ := hdiffers
    rw [herror s' hreset, herror s rfl]
    simp

theorem runDocument_of_named (hreset : s'.reset = s.reset) (hname : name ≠ []) :
    (s'.runDocument r name text).1 = (s.runDocument r name text).1 := by
  have hsame : (s'.validate text).1 = (s.validate text).1 := validate_of_reset hreset
  have hafter : (s'.validate text).2.reset = (s.validate text).2.reset := by
    rw [reset_validate, reset_validate, hreset]
  rcases s.validate_cases text with hadmits | hrejects | ⟨failure, hfails⟩
  · have hparse : ((s'.validate text).2.parse text (some name)).1 =
        ((s.validate text).2.parse text (some name)).1 :=
      parse_of_named hafter ⟨name, rfl, hname⟩
    rw [runDocument_of_admits (hsame.trans hadmits), runDocument_of_admits hadmits]
    revert hparse
    rcases (s'.validate text).2.parse text (some name) with ⟨answer', after'⟩
    rcases (s.validate text).2.parse text (some name) with ⟨answer, after⟩
    intro hparse
    dsimp only at hparse
    rw [hparse]
    cases answer with
    | ok v => rfl
    | error failure => cases failure <;> rfl
  · rw [runDocument_of_rejects (hsame.trans hrejects), runDocument_of_rejects hrejects]
  · rw [runDocument_of_fails (hsame.trans hfails), runDocument_of_fails hfails]

theorem runFrom_of_named (hreset : s'.reset = s.reset) (hnames : ∀ d ∈ documents, d.1 ≠ []) :
    (s'.runFrom r documents).1 = (s.runFrom r documents).1 := by
  induction documents generalizing s s' r with
  | nil => rfl
  | cons document rest ih =>
    obtain ⟨name, text⟩ := document
    obtain ⟨hname, hrest⟩ := List.forall_mem_cons.mp hnames
    have hfirst : (s'.runDocument r name text).1 = (s.runDocument r name text).1 :=
      runDocument_of_named hreset hname
    have hafter : (s'.runDocument r name text).2.reset = (s.runDocument r name text).2.reset := by
      rw [reset_runDocument, reset_runDocument, hreset]
    rw [runFrom, runFrom]
    revert hfirst hafter
    rcases s'.runDocument r name text with ⟨answer', after'⟩
    rcases s.runDocument r name text with ⟨answer, after⟩
    intro hfirst hafter
    dsimp only at hfirst hafter
    subst hfirst
    cases answer' with
    | ok r₁ => exact ih hafter hrest
    | error failure => rfl

theorem run_of_reset (hreset : s'.reset = s.reset)
    (h : s.trusting = false ∨ ∀ d ∈ documents, d.1 ≠ []) :
    (s'.run documents).1 = (s.run documents).1 := by
  rcases h with htrusting | hnames
  · have htrusting' : s'.trusting = false := by
      rw [← htrusting]
      exact congrArg (·.trusting) hreset
    have hjudge : s'.judge = s.judge := by
      funext document
      exact judge_of_reset htrusting hreset
    rw [run_eq_judge htrusting', run_eq_judge htrusting, hjudge]
  · exact runFrom_of_named hreset hnames

/-! ## What a step leaves behind -/

theorem reset_runFrom : (s.runFrom r documents).2.reset = s.reset := by
  induction documents generalizing s r with
  | nil => rfl
  | cons document rest ih =>
    obtain ⟨name, text⟩ := document
    have hfirst : (s.runDocument r name text).2.reset = s.reset := reset_runDocument
    rw [runFrom]
    revert hfirst
    rcases s.runDocument r name text with ⟨answer, after⟩
    intro hfirst
    cases answer with
    | ok r₁ => exact ih.trans hfirst
    | error failure => exact hfirst

theorem reset_perform : (s.perform step).reset = s.reset := by
  cases step with
  | parse text id => exact reset_parse
  | validate text => exact reset_validate
  | batch documents => exact reset_runFrom
  | reset => rfl

theorem parsed_runDocument_of_admits (h : s.Admits text) :
    (s.runDocument r name text).2.parser.parsed =
      s.parser.parsed + if isCounted text then 1 else 0 := by
  have hcount : ((s.validate text).2.parse text (some name)).2.parser.parsed =
      s.parser.parsed + if isCounted text then 1 else 0 := by
    rw [parsed_parse, parsed_validate]
  rw [runDocument_of_admits h, ← hcount]
  rcases (s.validate text).2.parse text (some name) with ⟨answer, after⟩
  cases answer with
  | ok v => rfl
  | error failure => cases failure <;> rfl

theorem runDocument_isOk_of_admits (h : s.Admits text) :
    (s.runDocument r name text).1.isOk = true ↔ ¬ s.Ends text (some name) := by
  have hends : (s.validate text).2.Ends text (some name) ↔ s.Ends text (some name) :=
    ends_of_reset reset_validate
  rw [runDocument_of_admits h, ← hends, Ends]
  rcases (s.validate text).2.parse text (some name) with ⟨answer, after⟩
  cases answer with
  | ok v => simp [Except.isOk, Except.toBool]
  | error failure => cases failure <;> simp [Except.isOk, Except.toBool]

/-- A batch counts the texts that it hands to the parser, whatever the counters were. -/
theorem parsed_runFrom (hreset : s'.reset = s.reset) :
    (s'.runFrom r documents).2.parser.parsed =
      s'.parser.parsed + (s.batchTexts documents).countP isCounted := by
  induction documents generalizing s' r with
  | nil => rfl
  | cons document rest ih =>
    obtain ⟨name, text⟩ := document
    have hsame : (s'.validate text).1 = (s.validate text).1 := validate_of_reset hreset
    have hafter : (s'.runDocument r name text).2.reset = s.reset := by
      rw [reset_runDocument, hreset]
    rw [runFrom, batchTexts]
    rcases s.validate_cases text with hadmits | hrejects | ⟨failure, hfails⟩
    · have hadmits' : s'.Admits text := hsame.trans hadmits
      have hcount : (s'.runDocument r name text).2.parser.parsed =
          s'.parser.parsed + if isCounted text then 1 else 0 :=
        parsed_runDocument_of_admits hadmits'
      have hgoes : (s'.runDocument r name text).1.isOk = true ↔ ¬ s.Ends text (some name) := by
        rw [runDocument_isOk_of_admits hadmits', ends_of_reset hreset]
      rw [Admits] at hadmits
      rw [hadmits]
      revert hafter hcount hgoes
      rcases s'.runDocument r name text with ⟨answer, after⟩
      intro hafter hcount hgoes
      cases answer with
      | ok r₁ =>
        have hrest := @ih after r₁ hafter
        dsimp only at hcount hrest ⊢
        rw [hrest, hcount, if_neg (hgoes.mp rfl), List.countP_cons]
        omega
      | error failure =>
        have hends : s.Ends text (some name) := by
          by_contra hnot
          cases hgoes.mpr hnot
        dsimp only at hcount ⊢
        rw [hcount, if_pos hends, List.countP_singleton]
    · have hrejects' : s'.Rejects text := hsame.trans hrejects
      rw [runDocument_of_rejects hrejects'] at hafter ⊢
      rw [Rejects] at hrejects
      rw [hrejects]
      dsimp only at hafter ⊢
      rw [ih hafter, parsed_validate]
    · rw [runDocument_of_fails (hsame.trans hfails), hfails]
      exact parsed_validate

theorem parsed_perform (hreset : s'.reset = s.reset) : (s'.perform step).parser.parsed =
    if step.isReset then 0 else s'.parser.parsed + (s.parsedTexts step).countP isCounted := by
  cases step with
  | parse text id => simp [perform, parsedTexts, Step.isReset, parsed_parse, List.countP_singleton]
  | validate text => simp [perform, parsedTexts, Step.isReset, parsed_validate]
  | batch documents => exact parsed_runFrom hreset
  | reset => rfl

/-! ## Whole histories -/

theorem after_concat : s.after (steps ++ [step]) = (s.after steps).perform step := by
  rw [after, List.foldl_append]
  rfl

theorem reset_after : (s.after steps).reset = s.reset := by
  induction steps using List.reverseRecOn with
  | nil => rfl
  | append_singleton steps step ih => rw [after_concat, reset_perform, ih]

theorem sinceReset_concat : sinceReset (steps ++ [step]) =
    if step.isReset then [] else sinceReset steps ++ [step] := by
  rw [sinceReset, List.reverse_append]
  by_cases hreset : step.isReset = true
  · simp [hreset]
  · simp [hreset, sinceReset]

/-- The counter of a session that started fresh is the number of texts parsed since the
statistics were last reset. -/
theorem parsed_after (hfresh : s.parser.parsed = 0) :
    (s.after steps).parser.parsed = s.parses steps := by
  induction steps using List.reverseRecOn with
  | nil => exact hfresh
  | append_singleton steps step ih =>
    rw [after_concat, parsed_perform reset_after, parses, sinceReset_concat]
    by_cases hreset : step.isReset = true
    · simp [hreset]
    · rw [if_neg hreset, if_neg hreset, List.flatMap_append, List.countP_append, ih, parses]
      simp

end Session

/-- A session that has gone through any steps answers as a fresh one does, also where it
takes every text for valid.  Only a text without a name that cannot be read is reported
under another name, which is the number of texts parsed since the statistics were last
reset, the text itself included. -/
theorem session_has_no_memory (schema : Schema) (capability : Option Capability)
    (reader : Reader) (recover trusting debug : Bool) (steps : List Session.Step) :
    let fresh : Session := { Session.start schema capability recover debug with
      parser := { recover := recover, reader := reader }, trusting := trusting }
    let used : Session := fresh.after steps
    (∀ text name, name ≠ [] → (used.parse text (some name)).1 = (fresh.parse text (some name)).1) ∧
    (∀ text, (used.validate text).1 = (fresh.validate text).1) ∧
    (∀ documents, (trusting = false ∨ ∀ d ∈ documents, d.1 ≠ []) →
      (used.run documents).1 = (fresh.run documents).1) ∧
    ∀ text (id : Option Text), (id = none ∨ id = some []) →
      (used.parse text id).1 = (fresh.parse text id).1 ∨
      isCounted text = true ∧ ∃ problem content,
        (fresh.parse text id).1 = .error (.error ⟨.parsing problem content,
          { document := some "parse_1" }⟩) ∧
        (used.parse text id).1 = .error (.error ⟨.parsing problem content,
          { document := some ("parse_" ++ toString (fresh.parses steps + 1)) }⟩) := by
  intro fresh used
  have hreset : used.reset = fresh.reset := Session.reset_after
  have hcount : used.parser.parsed = fresh.parses steps := Session.parsed_after rfl
  refine ⟨?_, ?_, ?_, ?_⟩
  · intro text name hname
    exact Session.parse_of_named hreset ⟨name, rfl, hname⟩
  · intro text
    exact Session.validate_of_reset hreset
  · intro documents h
    exact Session.run_of_reset hreset h
  · intro text id hid
    rcases Session.parse_of_reset_cases text id hreset with hsame | hdiffers
    · exact Or.inl hsame
    · obtain ⟨hcounted, -, problem, content, herror⟩ := hdiffers
      have hfirst : ("parse_" ++ toString (0 + 1) : Text) = "parse_1" := by decide +kernel
      have hzero : fresh.parser.parsed = 0 := rfl
      refine Or.inr ⟨hcounted, problem, content, ?_, ?_⟩
      · rw [herror fresh rfl, hzero, hfirst]
      · rw [herror used hreset, hcount]

/-- The text before the reset, the blank one and the one that is only validated do not
count. -/
example : noteSession.parses [.parse (some "<") none, .reset,
    .batch [("", some "<r><p>1</p></r>"), ("d", some " ")], .validate (some "<"),
    .parse (some "<") (some "e")] = 2 := by decide +kernel

end XmlHarvest
