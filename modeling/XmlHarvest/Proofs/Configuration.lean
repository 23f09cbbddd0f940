import Mathlib.Data.List.Induction
import XmlHarvest.Configuration
import XmlHarvest.Proofs.Files.FilePath
import XmlHarvest.Proofs.Ordered
import XmlHarvest.Proofs.Outcome

/-! # Runs of a configuration

Schemas are loaded, forgotten and settings read again, in any order, while the files and
the environment change.  A run is looked at through its events since schemas were last
forgotten: the schemas that are held are those that were loaded in these events, each as
it was at its first load. -/
set_option autoImplicit false

namespace XmlHarvest

def Surroundings.schemaAt (s : Surroundings) (p : FilePath) : Outcome Schema := do
  Schema.read (← SchemaFile.read s.yaml s.files p)

namespace Configuration

inductive Operation where
  | load (path : Option Text)
  | clear
  | reload

/-- An operation, with the files and the environment as they are then. -/
structure Step where
  surroundings : Surroundings
  operation : Operation

def perform (c : Configuration) (step : Step) : Outcome (Option Schema) × Configuration :=
  match step.operation with
  | .load path =>
    let (schema, after) := c.load step.surroundings path
    (some <$> schema, after)
  | .clear => (.ok none, c.clear)
  | .reload =>
    match c.reload step.surroundings with
    | .ok after => (.ok none, after)
    | .error failure => (.error failure, c)

def run (c : Configuration) (steps : List Step) : Configuration :=
  steps.foldl (fun c step => (c.perform step).2) c

def target? (c : Configuration) (path : Option Text) : Option FilePath :=
  (c.schemaPath? path).map c.resolve

structure Event where
  before : Configuration
  step : Step

namespace Event

def succeeds (e : Event) : Bool := (e.before.perform e.step).1.isOk

/-- The schema at `p` is loaded, from its file or because it is held. -/
def loads (p : FilePath) (e : Event) : Bool :=
  match e.step.operation with
  | .load path => e.before.target? path == some p && e.succeeds
  | _ => false

def forgets (e : Event) : Bool :=
  match e.step.operation with
  | .load _ => false
  | _ => e.succeeds

end Event

def events (c : Configuration) : List Step → List Event
  | [] => []
  | step :: rest => ⟨c, step⟩ :: events (c.perform step).2 rest

/-- The events of a run since schemas were last forgotten. -/
def recent (c : Configuration) (steps : List Step) : List Event :=
  ((c.events steps).reverse.takeWhile fun e => !e.forgets).reverse

/-- The files and the environment when the schema at `p` was first loaded. -/
def firstLoad? (events : List Event) (p : FilePath) : Option Surroundings :=
  (events.find? (·.loads p)).map (·.step.surroundings)

variable {c : Configuration} {s : Surroundings} {path : Option Text} {step : Step}
  {steps : List Step}

/-! ## One step -/

theorem readSchema_eq (name : Text) : c.readSchema s name = s.schemaAt (c.resolve name) := rfl

/-- What a load answers and leaves behind. -/
inductive Loading (c : Configuration) (s : Surroundings) (path : Option Text) :
    Outcome Schema × Configuration → Prop
  | nowhere (h : c.target? path = none) :
      Loading c s path (.raise (.configuration .noSchemaPath), c)
  | held {p : FilePath} {schema : Schema} (target : c.target? path = some p)
      (found : Ordered.get? c.schemas p.text = some schema) : Loading c s path (.ok schema, c)
  | fresh {p : FilePath} {schema : Schema} (target : c.target? path = some p)
      (new : Ordered.get? c.schemas p.text = none) (read : s.schemaAt p = .ok schema) :
      Loading c s path (.ok schema, { c with schemas := Ordered.put p.text schema c.schemas })
  | failed {p : FilePath} {failure : Failure} (target : c.target? path = some p)
      (new : Ordered.get? c.schemas p.text = none) (read : s.schemaAt p = .error failure) :
      Loading c s path (.error failure, c)

theorem loading (c : Configuration) (s : Surroundings) (path : Option Text) :
    Loading c s path (c.load s path) := by
  rw [load]
  cases hpath : c.schemaPath? path with
  | none => exact .nowhere (by simp [target?, hpath])
  | some name =>
    have htarget : c.target? path = some (c.resolve name) := by simp [target?, hpath]
    dsimp only
    cases hheld : Ordered.get? c.schemas (c.key name) with
    | some schema => exact .held htarget hheld
    | none =>
      rw [readSchema_eq]
      dsimp only
      cases hread : s.schemaAt (c.resolve name) with
      | ok schema => exact .fresh htarget hheld hread
      | error failure => exact .failed htarget hheld hread

theorem perform_load :
    c.perform ⟨s, .load path⟩ = (some <$> (c.load s path).1, (c.load s path).2) := by
  rw [perform]

theorem base_reload {after : Configuration} (h : c.reload s = .ok after) :
    after.settings.base = c.settings.base ∧ after.schemas = [] := by
  obtain ⟨settings, hsettings, hafter⟩ := (Outcome.bind_eq_ok _ _ _).mp h
  obtain ⟨indent, -, hread⟩ := (Outcome.bind_eq_ok _ _ _).mp hsettings
  cases hafter
  cases hread
  exact ⟨rfl, rfl⟩

theorem base_perform : (c.perform step).2.settings.base = c.settings.base := by
  obtain ⟨s, operation⟩ := step
  cases operation with
  | load path =>
    have hloading := loading c s path
    rw [perform_load]
    generalize c.load s path = result at hloading
    cases hloading <;> rfl
  | clear => rfl
  | reload =>
    cases hreload : c.reload s with
    | ok after =>
      simp only [perform, hreload]
      exact (base_reload hreload).1
    | error failure => simp only [perform, hreload]

/-- A step that fails leaves everything as it was. -/
theorem perform_of_error {failure : Failure} (h : (c.perform step).1 = .error failure) :
    (c.perform step).2 = c := by
  obtain ⟨s, operation⟩ := step
  cases operation with
  | load path =>
    have hloading := loading c s path
    rw [perform_load] at h ⊢
    generalize c.load s path = result at hloading h
    cases hloading with
    | nowhere _ => rfl
    | held _ _ => cases h
    | fresh _ _ _ => cases h
    | failed _ _ _ => rfl
  | clear => cases h
  | reload =>
    cases hreload : c.reload s with
    | ok after =>
      simp only [perform, hreload] at h
      cases h
    | error failure => simp only [perform, hreload]

/-! ## What is held -/

variable {since : List Event} {e : Event} {p : FilePath}

theorem normal_of_target (hbase : c.settings.base.Normal) (h : c.target? path = some p) :
    p.Normal := by
  obtain ⟨name, -, rfl⟩ := Option.map_eq_some_iff.mp h
  exact FilePath.normal_resolve hbase FilePath.normal_parse

theorem loads_load : Event.loads p ⟨c, ⟨s, .load path⟩⟩ = true ↔
    c.target? path = some p ∧ ∃ schema, (c.load s path).1 = .ok schema := by
  have hsucceeds : Event.succeeds ⟨c, ⟨s, .load path⟩⟩ = true ↔
      ∃ schema, (c.load s path).1 = .ok schema := by
    rw [Event.succeeds, perform_load]
    cases (c.load s path).1 with
    | ok schema => simp [Functor.map, Except.map, Except.isOk, Except.toBool]
    | error failure => simp [Functor.map, Except.map, Except.isOk, Except.toBool]
  rw [← hsucceeds]
  simp [Event.loads]

theorem firstLoad?_concat : firstLoad? (since ++ [e]) p =
    (firstLoad? since p).or (if e.loads p then some e.step.surroundings else none) := by
  rw [firstLoad?, firstLoad?, List.find?_append]
  cases since.find? (·.loads p) with
  | some first => rfl
  | none =>
    by_cases hloads : e.loads p = true
    · simp [hloads]
    · simp [hloads]

/-- The schemas that are held are those that were loaded in the events `since`. -/
structure Coherent (c : Configuration) (since : List Event) : Prop where
  base : c.settings.base.Normal
  normal : ∀ e ∈ since, ∀ p, e.loads p = true → p.Normal
  keys : ∀ key ∈ Ordered.keys c.schemas, ∃ p, FilePath.Normal p ∧ p.text = key
  nodup : (Ordered.keys c.schemas).Nodup
  held : ∀ p, FilePath.Normal p → (Ordered.get? c.schemas p.text).map Except.ok =
    (firstLoad? since p).map (·.schemaAt p)

namespace Coherent

theorem mem_keys_iff (h : Coherent c since) {key : Text} :
    key ∈ Ordered.keys c.schemas ↔ ∃ e ∈ since, ∃ p, e.loads p = true ∧ p.text = key := by
  have hfound : ∀ p, FilePath.Normal p →
      (p.text ∈ Ordered.keys c.schemas ↔ ∃ e ∈ since, e.loads p = true) := by
    intro p hp
    have hheld := congrArg Option.isSome (h.held p hp)
    rw [Option.isSome_map, Option.isSome_map] at hheld
    rw [← not_iff_not, ← Ordered.get?_eq_none, ← Option.not_isSome_iff_eq_none, hheld]
    simp [firstLoad?]
  constructor
  · intro hkey
    obtain ⟨p, hp, rfl⟩ := h.keys key hkey
    obtain ⟨e, he, hloads⟩ := (hfound p hp).mp hkey
    exact ⟨e, he, p, hloads, rfl⟩
  · intro hloaded
    obtain ⟨e, he, p, hloads, rfl⟩ := hloaded
    exact (hfound p (h.normal e he p hloads)).mpr ⟨e, he, hloads⟩

/-- An event after which the same schemas are held. -/
theorem seen (h : Coherent c since)
    (hseen : ∀ p, e.loads p = true → p.Normal ∧ (firstLoad? since p).isSome) :
    Coherent c (since ++ [e]) := by
  refine ⟨h.base, ?_, h.keys, h.nodup, ?_⟩
  · intro e' he' p hloads
    rcases List.mem_append.mp he' with hold | hnew
    · exact h.normal e' hold p hloads
    · rw [List.mem_singleton] at hnew
      subst hnew
      exact (hseen p hloads).1
  · intro p hp
    have hsame : firstLoad? (since ++ [e]) p = firstLoad? since p := by
      rw [firstLoad?_concat]
      by_cases hloads : e.loads p = true
      · obtain ⟨first, hfirst⟩ := Option.isSome_iff_exists.mp (hseen p hloads).2
        simp [hfirst]
      · simp [hloads]
    rw [hsame]
    exact h.held p hp

/-- A schema that is held is what its file gave at the first load. -/
theorem firstLoad?_of_held (h : Coherent c since) (hp : p.Normal) {schema : Schema}
    (hfound : Ordered.get? c.schemas p.text = some schema) :
    ∃ first, firstLoad? since p = some first ∧ first.schemaAt p = .ok schema := by
  have hheld := h.held p hp
  rw [hfound, Option.map_some] at hheld
  exact Option.map_eq_some_iff.mp hheld.symm

theorem firstLoad?_of_new (h : Coherent c since) (hp : p.Normal)
    (hnew : Ordered.get? c.schemas p.text = none) : firstLoad? since p = none := by
  have hheld := h.held p hp
  rw [hnew, Option.map_none] at hheld
  exact Option.map_eq_none_iff.mp hheld.symm

theorem load (h : Coherent c since) (s : Surroundings) (path : Option Text) :
    Coherent (c.load s path).2 (since ++ [⟨c, ⟨s, .load path⟩⟩]) := by
  have hloading := loading c s path
  have hloads : ∀ p, Event.loads p ⟨c, ⟨s, .load path⟩⟩ = true ↔
      c.target? path = some p ∧ ∃ schema, (c.load s path).1 = .ok schema := fun p => loads_load
  generalize c.load s path = result at hloading hloads
  cases hloading with
  | nowhere htarget =>
    apply h.seen
    intro p hp
    have htarget' := ((hloads p).mp hp).1
    rw [htarget] at htarget'
    cases htarget'
  | failed htarget _ _ =>
    apply h.seen
    intro p hp
    obtain ⟨schema, hschema⟩ := ((hloads p).mp hp).2
    cases hschema
  | held htarget hfound =>
    apply h.seen
    intro p hp
    have htarget' := ((hloads p).mp hp).1
    rw [htarget] at htarget'
    cases htarget'
    have hnormal := normal_of_target h.base htarget
    obtain ⟨first, hfirst, -⟩ := h.firstLoad?_of_held hnormal hfound
    exact ⟨hnormal, Option.isSome_iff_exists.mpr ⟨first, hfirst⟩⟩
  | @fresh p schema htarget hnew hread =>
    have hnormal := normal_of_target h.base htarget
    have hself : Event.loads p ⟨c, ⟨s, .load path⟩⟩ = true := (hloads p).mpr ⟨htarget, schema, rfl⟩
    have hnever : firstLoad? since p = none := h.firstLoad?_of_new hnormal hnew
    refine ⟨h.base, ?_, ?_, Ordered.nodup_put h.nodup, ?_⟩
    · intro e he q hq
      rcases List.mem_append.mp he with hold | hlast
      · exact h.normal e hold q hq
      · rw [List.mem_singleton] at hlast
        subst hlast
        exact normal_of_target h.base ((hloads q).mp hq).1
    · intro key hkey
      rcases Ordered.mem_keys_put.mp hkey with rfl | hold
      · exact ⟨p, hnormal, rfl⟩
      · exact h.keys key hold
    · intro q hq
      rw [firstLoad?_concat]
      -- one key is written, and the texts of normal paths tell it from all others
      by_cases hpq : q = p
      · subst hpq
        rw [Ordered.get?_put_self, hnever, hself]
        simp [hread]
      · have htext : p.text ≠ q.text := by
          intro htext
          exact hpq ((FilePath.text_inj hnormal hq).mp htext).symm
        have hother : ¬ Event.loads q ⟨c, ⟨s, .load path⟩⟩ = true := by
          intro hloaded
          have htarget' := ((hloads q).mp hloaded).1
          rw [htarget] at htarget'
          exact hpq (Option.some.inj htarget').symm
        rw [Ordered.get?_put_of_ne htext, if_neg hother, Option.or_none]
        exact h.held q hq

theorem nil (hbase : c.settings.base.Normal) (hempty : c.schemas = []) : Coherent c [] := by
  refine ⟨hbase, ?_, ?_, ?_, ?_⟩
  · simp
  · simp [hempty, Ordered.keys]
  · simp [hempty, Ordered.keys]
  · intro p _
    rw [hempty]
    rfl

theorem perform (h : Coherent c since) (step : Step) :
    Coherent (c.perform step).2
      (if Event.forgets ⟨c, step⟩ then [] else since ++ [⟨c, step⟩]) := by
  obtain ⟨s, operation⟩ := step
  cases operation with
  | load path =>
    rw [perform_load]
    exact h.load s path
  | clear => exact nil h.base rfl
  | reload =>
    cases hreload : c.reload s with
    | ok after =>
      obtain ⟨hbase, hempty⟩ := base_reload hreload
      have hforgets : Event.forgets ⟨c, ⟨s, .reload⟩⟩ = true := by
        simp [Event.forgets, Event.succeeds, Configuration.perform, hreload, Except.isOk,
          Except.toBool]
      rw [if_pos hforgets]
      simp only [Configuration.perform, hreload]
      exact nil (hbase ▸ h.base) hempty
    | error failure =>
      have hforgets : ¬ Event.forgets ⟨c, ⟨s, .reload⟩⟩ = true := by
        simp [Event.forgets, Event.succeeds, Configuration.perform, hreload, Except.isOk,
          Except.toBool]
      rw [if_neg hforgets]
      simp only [Configuration.perform, hreload]
      apply h.seen
      intro p hp
      cases hp

end Coherent

/-! ## Whole runs -/

theorem run_concat : c.run (steps ++ [step]) = ((c.run steps).perform step).2 := by
  rw [run, List.foldl_append]
  rfl

theorem events_concat : c.events (steps ++ [step]) = c.events steps ++ [⟨c.run steps, step⟩] := by
  induction steps generalizing c with
  | nil => rfl
  | cons first rest ih => exact congrArg (_ :: ·) ih

theorem recent_concat : c.recent (steps ++ [step]) =
    if Event.forgets ⟨c.run steps, step⟩ then []
    else c.recent steps ++ [⟨c.run steps, step⟩] := by
  rw [recent, events_concat, List.reverse_append]
  by_cases hforgets : Event.forgets ⟨c.run steps, step⟩ = true
  · simp [hforgets]
  · simp [hforgets, recent]

theorem coherent_run (h : Coherent c []) (steps : List Step) :
    Coherent (c.run steps) (c.recent steps) := by
  induction steps using List.reverseRecOn with
  | nil => exact h
  | append_singleton steps step ih =>
    rw [run_concat, recent_concat]
    exact ih.perform step

theorem base_run : (c.run steps).settings.base = c.settings.base := by
  induction steps using List.reverseRecOn with
  | nil => rfl
  | append_singleton steps step ih => rw [run_concat, base_perform, ih]

theorem base_withBase {base : FilePath} {environment : Environment} {settings : Settings}
    (h : Settings.withBase base environment = .ok settings) : settings.base = base := by
  obtain ⟨indent, -, hsettings⟩ := (Outcome.bind_eq_ok _ _ _).mp h
  cases hsettings
  rfl

theorem normal_environmentBase {environment : Environment} :
    (Settings.environmentBase s.files.here environment).Normal := by
  rw [Settings.environmentBase]
  cases environment.configPath with
  | none => exact FilePath.normal_parse
  | some path => exact FilePath.normal_parse

theorem coherent_start {base : Option Text} (h : start s base = .ok c) : Coherent c [] := by
  obtain ⟨settings, hsettings, hc⟩ := (Outcome.bind_eq_ok _ _ _).mp h
  cases hc
  refine Coherent.nil ?_ rfl
  unfold Settings.read at hsettings
  split at hsettings
  · rw [base_withBase hsettings]
    exact normal_environmentBase
  · rw [base_withBase hsettings]
    exact normal_environmentBase
  · rw [base_withBase hsettings]
    exact FilePath.normal_parse

theorem load_fst (h : Coherent c since) : (c.load s path).1 =
    match c.target? path with
    | none => .raise (.configuration .noSchemaPath)
    | some p => ((firstLoad? since p).getD s).schemaAt p := by
  have hloading := loading c s path
  generalize c.load s path = result at hloading
  cases hloading with
  | nowhere htarget => rw [htarget]
  | held htarget hfound =>
    obtain ⟨first, hfirst, hread⟩ :=
      h.firstLoad?_of_held (normal_of_target h.base htarget) hfound
    simp only [htarget, hfirst, Option.getD_some, hread]
  | fresh htarget hnew hread =>
    have hnever := h.firstLoad?_of_new (normal_of_target h.base htarget) hnew
    simp only [htarget, hnever, Option.getD_none, hread]
  | failed htarget hnew hread =>
    have hnever := h.firstLoad?_of_new (normal_of_target h.base htarget) hnew
    simp only [htarget, hnever, Option.getD_none, hread]

theorem load_of_empty (h : Coherent c []) : (c.load s path).1 =
    match c.target? path with
    | none => .raise (.configuration .noSchemaPath)
    | some p => s.schemaAt p := by
  rw [load_fst h]
  cases c.target? path with
  | none => rfl
  | some p => rfl

theorem key_inj (hbase : c.settings.base.Normal) {a b : Text} :
    c.key a = c.key b ↔ c.resolve a = c.resolve b :=
  FilePath.text_inj (FilePath.normal_resolve hbase FilePath.normal_parse)
    (FilePath.normal_resolve hbase FilePath.normal_parse)

end Configuration

/-- Whatever was done before, a load answers what its file gave when it was first loaded
since schemas were last forgotten, or what it gives now if it was not.  Held are the
schemas that were loaded since then, once each, under the texts of their paths; a step
that fails changes nothing; and two spellings share a schema exactly when they are
resolved to the same path. -/
theorem loads_are_coherent (s₀ : Surroundings) (base : Option Text) (c₀ : Configuration)
    (h : Configuration.start s₀ base = .ok c₀) (steps : List Configuration.Step) :
    (∀ s path, ((c₀.run steps).load s path).1 =
      match (c₀.run steps).target? path with
      | none => .raise (.configuration .noSchemaPath)
      | some p => ((Configuration.firstLoad? (c₀.recent steps) p).getD s).schemaAt p) ∧
    (∀ key, key ∈ Ordered.keys (c₀.run steps).schemas ↔
      ∃ e ∈ c₀.recent steps, ∃ p, e.loads p = true ∧ p.text = key) ∧
    (Ordered.keys (c₀.run steps).schemas).Nodup ∧
    (∀ step failure, ((c₀.run steps).perform step).1 = .error failure →
      ((c₀.run steps).perform step).2 = c₀.run steps) ∧
    ∀ a b, (c₀.run steps).key a = (c₀.run steps).key b ↔
      (c₀.run steps).resolve a = (c₀.run steps).resolve b := by
  have hcoherent := Configuration.coherent_run (Configuration.coherent_start h) steps
  refine ⟨?_, ?_, hcoherent.nodup, ?_, ?_⟩
  · intro s path
    exact Configuration.load_fst hcoherent
  · intro key
    exact hcoherent.mem_keys_iff
  · intro step failure hfails
    exact Configuration.perform_of_error hfails
  · intro a b
    exact Configuration.key_inj hcoherent.base

def shelfText (field : Text) : Text :=
  "\x7b\"schemas\": \x7b\"c\": \x7b\"f\": \"" ++ field ++ "\"\x7d\x7d\x7d"

def shelf (field : Text) : Surroundings where
  files := ⟨["w"], [(["w"], .directory),
    (["w", "a.json"], .file ((shelfText field).map fun c => UInt8.ofNat c.toNat))]⟩

def shelfConfiguration : Configuration where
  settings := ⟨⟨.slash, ["w"]⟩, none, Text.upper Defaults.logLevel.name, Defaults.indent⟩

def shelfPath : FilePath := ⟨.slash, ["w", "a.json"]⟩

theorem firstLoad?_shelf :
    Configuration.firstLoad? (shelfConfiguration.recent [⟨shelf "x", .load (some "a.json")⟩])
      shelfPath = some (shelf "x") := by
  have hloads : Configuration.Event.loads shelfPath
      ⟨shelfConfiguration, ⟨shelf "x", .load (some "a.json")⟩⟩ = true := by decide +kernel
  have hrecent : shelfConfiguration.recent ([] ++ [⟨shelf "x", .load (some "a.json")⟩]) = _ :=
    Configuration.recent_concat
  rw [List.nil_append] at hrecent
  rw [hrecent, Configuration.firstLoad?]
  simp [Configuration.Event.forgets, Configuration.recent, Configuration.events,
    Configuration.run, hloads]

/-- A file that has changed is not read again while its schema is held, whatever the
spelling of its path. -/
theorem shelf_is_coherent : Configuration.start (shelf "x") none = .ok shelfConfiguration ∧
    ((shelf "x").schemaAt shelfPath).isOk = true ∧
    ((shelfConfiguration.run [⟨shelf "x", .load (some "a.json")⟩]).load (shelf "y")
      (some "./a.json")).1 = (shelf "x").schemaAt shelfPath := by
  have hstart : Configuration.start (shelf "x") none = .ok shelfConfiguration := rfl
  have hread : ((shelf "x").schemaAt shelfPath).isOk = true := by decide +kernel
  have htarget : (shelfConfiguration.run [⟨shelf "x", .load (some "a.json")⟩]).target?
      (some "./a.json") = some shelfPath := by decide +kernel
  have hload := (loads_are_coherent _ _ _ hstart [⟨shelf "x", .load (some "a.json")⟩]).1
    (shelf "y") (some "./a.json")
  simp only [htarget, firstLoad?_shelf, Option.getD_some] at hload
  exact ⟨hstart, hread, hload⟩

end XmlHarvest
