import XmlHarvest.Proofs.Configuration
import XmlHarvest.Proofs.Files.Reading

/-! # Reading the settings again and starting again

A configuration that reads its settings again keeps the base that it was started with.
It is then what a start with that base gives, and what a start without a base gives only
if the environment still leads to the same base.  Paths from the root are followed alike
from every base; a relative path tells any two bases apart. -/
set_option autoImplicit false

namespace XmlHarvest

def Surroundings.base (s : Surroundings) : FilePath :=
  Settings.environmentBase s.files.here s.environment

namespace Configuration

def startAt (s : Surroundings) (base : FilePath) : Outcome Configuration := do
  .ok { settings := ← Settings.withBase base s.environment }

def rebase (c : Configuration) (base : FilePath) : Configuration :=
  { c with settings := { c.settings with base := base } }

def answers (c : Configuration) : List Step → List (Outcome (Option Schema))
  | [] => []
  | step :: rest => (c.perform step).1 :: answers (c.perform step).2 rest

/-- A step that follows no relative path. -/
def Step.Rooted (step : Step) : Prop :=
  ∀ path, step.operation = .load path →
    ∃ name, path = some name ∧ (FilePath.parse name).isAbsolute = true

variable {c fresh : Configuration} {s : Surroundings} {base : FilePath} {step : Step}

/-! ## Starts -/

theorem normal_base : s.base.Normal := normal_environmentBase

theorem start_none : start s none = startAt s s.base := rfl

theorem reload_eq : c.reload s = startAt s c.settings.base := rfl

theorem startAt_eq_ok (h : startAt s base = .ok fresh) :
    fresh.settings.base = base ∧ fresh.schemas = [] := by
  obtain ⟨settings, hsettings, hfresh⟩ := (Outcome.bind_eq_ok _ _ _).mp h
  cases hfresh
  exact ⟨base_withBase hsettings, rfl⟩

/-- The base decides nothing but itself. -/
theorem startAt_eq (s : Surroundings) (a b : FilePath) :
    startAt s a = (·.rebase a) <$> startAt s b := by
  rw [startAt, startAt, Settings.withBase, Settings.withBase]
  cases Settings.readIndent s.environment.jsonIndent with
  | ok indent => rfl
  | error failure => rfl

theorem text_ne_empty (h : base.Normal) : base.text ≠ [] := by
  intro htext
  have hbase : base = FilePath.parse [] := by rw [← htext, FilePath.parse_text h]
  subst hbase
  revert htext
  decide +kernel

theorem start_text (h : base.Normal) : start s (some base.text) = startAt s base := by
  have hread : Settings.read s.files.here s.environment (some base.text) =
      Settings.withBase base s.environment := by
    unfold Settings.read
    split
    · contradiction
    · rename_i hempty
      exact absurd (Option.some.inj hempty) (text_ne_empty h)
    · rename_i path _ hpath
      rw [← Option.some.inj hpath, FilePath.parse_text h]
  rw [start, hread, startAt]

/-! ## Runs from two bases -/

theorem resolve_rebase {name : Text} (h : (FilePath.parse name).isAbsolute = true) :
    (c.rebase base).resolve name = c.resolve name := by
  simp only [resolve, FilePath.resolve, if_pos h]

theorem load_rebase {name : Text} (h : (FilePath.parse name).isAbsolute = true) :
    (c.rebase base).load s (some name) =
      ((c.load s (some name)).1, (c.load s (some name)).2.rebase base) := by
  have hpath : ∀ d : Configuration, d.schemaPath? (some name) = some name := by
    intro d
    have hne : name ≠ [] := by
      intro hempty
      subst hempty
      revert h
      decide +kernel
    simp [schemaPath?, hne]
  have hkey : (c.rebase base).key name = c.key name := by rw [key, key, resolve_rebase h]
  have hread : (c.rebase base).readSchema s name = c.readSchema s name := by
    rw [readSchema_eq, readSchema_eq, resolve_rebase h]
  have hheld : (c.rebase base).schemas = c.schemas := rfl
  simp only [load, hpath, hkey, hread, hheld]
  cases Ordered.get? c.schemas (c.key name) with
  | some schema => rfl
  | none =>
    cases c.readSchema s name with
    | ok schema => rfl
    | error failure => rfl

theorem perform_rebase (h : step.Rooted) : (c.rebase base).perform step =
    ((c.perform step).1, (c.perform step).2.rebase base) := by
  obtain ⟨s, operation⟩ := step
  cases operation with
  | load path =>
    obtain ⟨name, hpath, hname⟩ := h path rfl
    subst hpath
    rw [perform_load, perform_load, load_rebase hname]
  | clear => rfl
  | reload =>
    simp only [perform, reload_eq]
    rw [startAt_eq s (c.rebase base).settings.base c.settings.base]
    cases startAt s c.settings.base with
    | ok fresh => rfl
    | error failure => rfl

theorem answers_rebase {steps : List Step} (h : ∀ step ∈ steps, step.Rooted) :
    (c.rebase base).answers steps = c.answers steps := by
  induction steps generalizing c with
  | nil => rfl
  | cons step rest ih =>
    obtain ⟨hstep, hrest⟩ := List.forall_mem_cons.mp h
    rw [answers, answers, perform_rebase hstep, ih hrest]

/-! ## Telling bases apart -/

def bare : Surroundings where
  files := ⟨[], []⟩

theorem walk_bare (names place : List Text) : ∃ problem,
    bare.files.walk place (names ++ (["x"] : List Text)) = .error problem := by
  have hnothing : ∀ name rest, bare.files.entry? (name :: rest) = none := fun _ _ => rfl
  -- names that lead upwards stay at the root; the first other one leads nowhere
  induction names generalizing place with
  | nil =>
    cases place with
    | nil => exact ⟨.noEntry, by decide +kernel⟩
    | cons name rest => exact ⟨.noEntry, by simp [FileTable.walk, hnothing]⟩
  | cons first names ih =>
    cases place with
    | nil =>
      have hroot : bare.files.entry? [] = some .directory := rfl
      rw [List.cons_append, FileTable.walk, hroot]
      dsimp only [FileEntry.search]
      split
      · exact ⟨.longName, rfl⟩
      · exact ih _
    | cons name rest => exact ⟨.noEntry, by simp [FileTable.walk, hnothing]⟩

theorem schemaAt_bare {p : FilePath} (h : ∃ names, p.names = names ++ (["x"] : List Text)) :
    (∃ problem, bare.schemaAt p = .error (.fault (.file problem p.text))) ∨
      bare.schemaAt p = .raise (.configuration (.schemaMissing p.text)) := by
  obtain ⟨names, hnames⟩ := h
  have hlook : ∃ problem, bare.files.look p = .error problem := by
    simp only [FileTable.look, hnames]
    split
    · exact ⟨_, rfl⟩
    · split_ifs
      · exact ⟨_, rfl⟩
      · exact ⟨_, rfl⟩
      · obtain ⟨problem, hwalk⟩ := walk_bare names (bare.files.start p)
        exact ⟨.system problem, by rw [hwalk]; rfl⟩
  obtain ⟨problem, hlook⟩ := hlook
  have hread : SchemaFile.read bare.yaml bare.files p = _ := SchemaFile.read_of_problem hlook
  by_cases habsence : problem.isAbsence = true
  · right
    rw [Surroundings.schemaAt, hread, if_pos habsence]
    rfl
  · left
    rw [Surroundings.schemaAt, hread, if_neg habsence]
    exact ⟨problem, rfl⟩

/-- What is said of a path that leads nowhere tells its text. -/
theorem schemaAt_bare_inj {p q : FilePath} (hp : ∃ names, p.names = names ++ (["x"] : List Text))
    (hq : ∃ names, q.names = names ++ (["x"] : List Text)) (h : bare.schemaAt p = bare.schemaAt q) :
    p.text = q.text := by
  rcases schemaAt_bare hp with ⟨problem, hp⟩ | hp
  · rcases schemaAt_bare hq with ⟨problem', hq⟩ | hq
    · have hfault : Fault.file problem p.text = .file problem' q.text := by simpa [hp, hq] using h
      exact (Fault.file.inj hfault).2
    · simp [hp, hq, Outcome.raise, Failure.of] at h
  · rcases schemaAt_bare hq with ⟨problem', hq⟩ | hq
    · simp [hp, hq, Outcome.raise, Failure.of] at h
    · simpa [hp, hq, Outcome.raise, Failure.of, Problem.configuration] using h

theorem names_resolve (c : Configuration) :
    ∃ names, (c.resolve "x").names = names ++ (["x"] : List Text) := by
  have hparse : FilePath.parse "x" = ⟨.workingDirectory, ["x"]⟩ := by decide +kernel
  rw [resolve, hparse]
  exact ⟨_, rfl⟩

/-- Configurations that answer alike follow relative paths from the same base. -/
theorem base_eq_of_answers {d : Configuration} (hc : Coherent c []) (hd : Coherent d [])
    (h : ∀ steps, c.answers steps = d.answers steps) : c.settings.base = d.settings.base := by
  have hloads : some <$> (c.load bare (some "x")).1 = some <$> (d.load bare (some "x")).1 := by
    simpa [answers, perform_load] using h [⟨bare, .load (some "x")⟩]
  have hschemas : bare.schemaAt (c.resolve "x") = bare.schemaAt (d.resolve "x") := by
    rw [load_of_empty hc, load_of_empty hd] at hloads
    exact (map_inj_right Option.some.inj).mp hloads
  have htext : (c.resolve "x").text = (d.resolve "x").text :=
    schemaAt_bare_inj (names_resolve c) (names_resolve d) hschemas
  have hpath : c.resolve "x" = d.resolve "x" :=
    (FilePath.text_inj (FilePath.normal_resolve hc.base FilePath.normal_parse)
      (FilePath.normal_resolve hd.base FilePath.normal_parse)).mp htext
  exact (FilePath.resolve_left_inj (by decide +kernel)).mp hpath

/-! ## Whole runs -/

/-- Whatever is done before, the settings are read again with the base of the start. -/
theorem reload_run {s₁ s₂ : Surroundings} (h : start s₁ none = .ok c) (steps : List Step) :
    (c.run steps).reload s₂ = startAt s₂ s₁.base := by
  have hbase : (c.run steps).settings.base = s₁.base := by
    rw [base_run]
    exact (startAt_eq_ok h).1
  rw [reload_eq, hbase]

theorem settings_rebase_eq_iff :
    (c.rebase base).settings = c.settings ↔ base = c.settings.base := by
  constructor
  · intro h
    rw [← h]
    rfl
  · intro h
    subst h
    rfl

theorem answers_rebase_eq_iff (hbase : base.Normal) (h : Coherent c []) (hempty : c.schemas = []) :
    (∀ steps, (c.rebase base).answers steps = c.answers steps) ↔ base = c.settings.base := by
  constructor
  · intro hanswers
    exact base_eq_of_answers (c := c.rebase base) (.nil hbase hempty) h hanswers
  · intro hsame steps
    subst hsame
    rfl

end Configuration

/-- A configuration that was started without a base, used, and told to read its settings
again is refused when a start without a base would be.  Otherwise it is what such a start
gives, but for the base, which stays that of the first start: the two answer alike, now
and after any steps, exactly if the environment leads to the same base as it did then, and
in any case as long as no relative path is followed. -/
theorem reload_keeps_first_base (s₁ s₂ : Surroundings) (c : Configuration)
    (h : Configuration.start s₁ none = .ok c) (steps : List Configuration.Step) :
    (∀ failure, (c.run steps).reload s₂ = .error failure ↔
      Configuration.start s₂ none = .error failure) ∧
    ∀ fresh, Configuration.start s₂ none = .ok fresh →
      ∃ reloaded, (c.run steps).reload s₂ = .ok reloaded ∧
        Configuration.start s₂ (some s₁.base.text) = .ok reloaded ∧
        reloaded = fresh.rebase s₁.base ∧ fresh.settings.base = s₂.base ∧
        (reloaded.settings = fresh.settings ↔ s₁.base = s₂.base) ∧
        ((∀ later, reloaded.answers later = fresh.answers later) ↔ s₁.base = s₂.base) ∧
        ∀ later, (∀ step ∈ later, Configuration.Step.Rooted step) →
          reloaded.answers later = fresh.answers later := by
  have hrebase : Configuration.startAt s₂ s₁.base =
      (·.rebase s₁.base) <$> Configuration.start s₂ none := by
    rw [Configuration.start_none]
    exact Configuration.startAt_eq s₂ s₁.base s₂.base
  rw [Configuration.reload_run h, Configuration.start_text Configuration.normal_base]
  constructor
  · intro failure
    rw [hrebase]
    exact Outcome.map_eq_error _ _ _
  · intro fresh hfresh
    have hbase : fresh.settings.base = s₂.base := (Configuration.startAt_eq_ok hfresh).1
    have hempty : fresh.schemas = [] := (Configuration.startAt_eq_ok hfresh).2
    have hreloaded : Configuration.startAt s₂ s₁.base = .ok (fresh.rebase s₁.base) := by
      rw [hrebase, hfresh]
      rfl
    refine ⟨fresh.rebase s₁.base, hreloaded, hreloaded, rfl, hbase, ?_, ?_, ?_⟩
    · rw [← hbase]
      exact Configuration.settings_rebase_eq_iff
    · rw [← hbase]
      exact Configuration.answers_rebase_eq_iff Configuration.normal_base
        (Configuration.coherent_start hfresh) hempty
    · intro later hrooted
      exact Configuration.answers_rebase hrooted

def shelfBeside : Surroundings :=
  { shelf "x" with environment := { configPath := some "/v" } }

def shelfNamed : Surroundings :=
  { shelf "x" with environment := { configPath := some "/w" } }

def beside : Configuration := shelfConfiguration.rebase ⟨.slash, ["v"]⟩

theorem reload_beside : Configuration.start shelfBeside none = .ok beside ∧
    Configuration.start shelfNamed none = .ok shelfConfiguration ∧
    beside.reload shelfNamed = .ok beside ∧
    ¬ ∀ later, beside.answers later = shelfConfiguration.answers later := by
  have hstart : Configuration.start shelfBeside none = .ok beside := by rfl
  have hfresh : Configuration.start shelfNamed none = .ok shelfConfiguration := by rfl
  obtain ⟨reloaded, hreload, -, hrebase, -, -, hanswers, -⟩ :=
    (reload_keeps_first_base shelfBeside shelfNamed beside hstart []).2 _ hfresh
  have hbeside : reloaded = beside := hrebase
  subst hbeside
  refine ⟨hstart, hfresh, hreload, ?_⟩
  rw [hanswers]
  decide +kernel

/-- The schema that a new start finds is missing for a configuration that reads its
settings again. -/
theorem named_shelf_missed : Configuration.start shelfBeside none = .ok beside ∧
    Configuration.start shelfNamed none = .ok shelfConfiguration ∧
    ((shelfConfiguration.load shelfNamed (some "a.json")).1.isOk = true) ∧
    ∃ reloaded, beside.reload shelfNamed = .ok reloaded ∧
      reloaded.settings.base ≠ shelfConfiguration.settings.base ∧
      (reloaded.load shelfNamed (some "a.json")).1 =
        .raise (.configuration (.schemaMissing "/v/a.json")) := by
  refine ⟨rfl, rfl, ?_, beside, rfl, ?_, ?_⟩
  · decide +kernel
  · decide +kernel
  · rfl

end XmlHarvest
