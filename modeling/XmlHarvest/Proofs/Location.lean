import XmlHarvest.Proofs.Agenda
import XmlHarvest.Proofs.Field
import XmlHarvest.Proofs.Path

/-! # Where an extraction fails

An extraction ends at the first visit of its agenda that fails.  What fails there is
a path that stops short, a modifier or the mapper of a field; on its way out the
error takes the names around the visit, and of those the first that are not empty
stay with it. -/
set_option autoImplicit false

namespace XmlHarvest

open Xml

/-- An action fails at an element, with a problem and, if a path stops short, that
path. -/
inductive Action.Fails (s : Scope) (e : Element) : Action → Problem → Option Text → Prop
  | reach {p : Path} {segments : List Text} {tag : Text} (stops : Stops e segments tag) :
      Fails s e (.reach p segments) (.pathNotFound tag) (some p.text)
  | text {p : Path} {tag : Text} (stops : Stops e p.segments tag) :
      Fails s e (.text p) (.pathNotFound tag) (some p.text)
  /-- The first of a field's paths that stops short. -/
  | path {f : FullField} {before after : List Path} {p : Path} {tag : Text}
      (paths : f.chain.paths = before ++ p :: after)
      (found : ∀ q ∈ before, ∃ target, Reaches e q.segments target)
      (stops : Stops e p.segments tag) :
      Fails s e (.full f) (.pathNotFound tag) (some p.text)
  | unknownModifier {f : FullField} {ref : ModifierRef} {values : List Value}
      (applied : s.Applies e f.chain ref values)
      (unknown : s.registry.resolve ref.name = .raise (.unknownModifier ref.name)) :
      Fails s e (.full f) (.unknownModifier ref.name) none
  | modifier {f : FullField} {ref : ModifierRef} {values : List Value} {transform : Transform}
      {cause : Failure} {message : Text} (applied : s.Applies e f.chain ref values)
      (known : s.registry.resolve ref.name = .ok transform)
      (shown : ¬ s.registry.Withheld ref values)
      (failed : transform (values ++ ref.params) = .error cause)
      (reported : Registry.report ref values cause = .ok message) :
      Fails s e (.full f) (.transformation message (some ref.name)
        (some (Registry.source values)) (some cause)) none
  | mapper {f : FullField} {name : Text} {v : Value} (value : s.runChain e f.chain = .ok v)
      (named : f.mapper = some name) (unknown : Ordered.get? s.mappers name = none) :
      Fails s e (.full f) (.unknownMapper name) none

def firstName? (names : List Text) : Option Text := names.find? fun name => name ≠ []

/-- The collections around a visit, innermost first.  The path of an anchor is
followed for the collection that has it. -/
def Visit.collections (v : Visit) : List Text :=
  match v.action with
  | .reach _ _ => v.names
  | .text _ | .full _ => v.names.tail

/-- The place that an error of a visit reports.  The outermost name is that of a
collection of the schema, which is no field. -/
def Visit.place (v : Visit) (path : Option Text) : Place where
  collection := firstName? v.collections
  field := firstName? v.names.dropLast
  path := path

section Fields

variable {s : Scope} {e : Element} {f : FullField} {err : Error}

/-- What a failing modifier reports. -/
theorem apply_eq_error_iff {r : Registry} {ref : ModifierRef} {values : List Value} :
    r.apply ref values = .error (.error err) ↔
      (r.resolve ref.name = .raise (.unknownModifier ref.name) ∧
        err = ⟨.unknownModifier ref.name, {}⟩) ∨
      ∃ transform cause message, r.resolve ref.name = .ok transform ∧
        ¬ r.Withheld ref values ∧ transform (values ++ ref.params) = .error cause ∧
        Registry.report ref values cause = .ok message ∧
        err = ⟨.transformation message (some ref.name) (some (Registry.source values))
          (some cause), {}⟩ := by
  have hreport : ∀ cause, Registry.transformation ref values cause = .error err ↔
      ∃ message, Registry.report ref values cause = .ok message ∧
        err = ⟨.transformation message (some ref.name) (some (Registry.source values))
          (some cause), {}⟩ := by
    intro cause
    rw [Registry.transformation]
    cases Registry.report ref values cause with
    | ok message => simp [Failure.of, eq_comm]
    | error fault => simp
  rw [apply_eq_error]
  simp only [hreport]
  constructor
  · rintro (h | ⟨transform, hknown, ⟨-, h⟩ | ⟨hshown, cause, hfailed, message, hmessage, herr⟩⟩)
    · have hunknown := resolve_eq_error h
      cases hunknown
      exact .inl ⟨h, rfl⟩
    · cases h
    · exact .inr ⟨transform, cause, message, hknown, hshown, hfailed, hmessage, herr⟩
  · rintro (⟨h, rfl⟩ | ⟨transform, cause, message, hknown, hshown, hfailed, hmessage, herr⟩)
    · exact .inl h
    · exact .inr ⟨transform, hknown, .inr ⟨hshown, cause, hfailed, message, hmessage, herr⟩⟩

theorem map_eq_unknown {mappers : Mappers} {name : Text} {v : Value} {debug : Bool} :
    mappers.map name v debug = .error (.error err) ↔
      Ordered.get? mappers name = none ∧ err = ⟨.unknownMapper name, {}⟩ := by
  simp [Mappers.map_eq_error, Failure.of]

/-- A full field fails with what its action fails with. -/
theorem runFull_eq_error_iff : s.runFull e f = .error (.error err) ↔
    ∃ problem path, Action.Fails s e (.full f) problem path ∧
      err = ⟨problem, { path := path }⟩ := by
  rw [runFull_eq_error, runChain_eq_error, textsAt_eq_error]
  simp only [apply_eq_error_iff, map_eq_unknown]
  constructor
  · rintro ((⟨before, p, after, tag, hpaths, hfound, hstops, h⟩ |
      ⟨ref, values, happlied, ⟨hunknown, rfl⟩ |
        ⟨transform, cause, message, hknown, hshown, hfailed, hreported, rfl⟩⟩) |
      ⟨v, name, hvalue, hnamed, hunknown, rfl⟩)
    · cases h
      exact ⟨_, _, .path hpaths hfound hstops, rfl⟩
    · exact ⟨_, _, .unknownModifier happlied hunknown, rfl⟩
    · exact ⟨_, _, .modifier happlied hknown hshown hfailed hreported, rfl⟩
    · exact ⟨_, _, .mapper hvalue hnamed hunknown, rfl⟩
  · rintro ⟨problem, path, hfails, rfl⟩
    cases hfails with
    | path hpaths hfound hstops =>
      exact .inl (.inl ⟨_, _, _, _, hpaths, hfound, hstops, rfl⟩)
    | unknownModifier happlied hunknown =>
      exact .inl (.inr ⟨_, _, happlied, .inl ⟨hunknown, rfl⟩⟩)
    | modifier happlied hknown hshown hfailed hreported =>
      exact .inl (.inr ⟨_, _, happlied, .inr ⟨_, _, _, hknown, hshown, hfailed, hreported, rfl⟩⟩)
    | mapper hvalue hnamed hunknown => exact .inr ⟨_, _, hvalue, hnamed, hunknown, rfl⟩

end Fields

section Names

variable {known : Option Text} {name : Text} {names : List Text} {place : Place}
  {problem : Problem}

theorem firstName?_cons : firstName? (name :: names) =
    if name = [] then firstName? names else some name := by
  by_cases h : name = []
  · simp [firstName?, h]
  · simp [firstName?, h]

theorem fill_none : Place.fill known none = known := by
  cases known <;> rfl

/-- Names that are filled in one after the other amount to the first that is not
empty. -/
theorem fill_fill : Place.fill (Place.fill known (some name)) (firstName? names) =
    Place.fill known (firstName? (name :: names)) := by
  rw [firstName?_cons]
  cases known with
  | some s => rfl
  | none =>
    by_cases h : name = []
    · subst h
      simp [Place.fill]
    · have hname : Place.fill none (some name) = some name := by simp [Place.fill, h]
      rw [if_neg h, hname, Place.fill]

theorem fill_firstName? : Place.fill none (firstName? names) = firstName? names := by
  induction names with
  | nil => rfl
  | cons name names ih =>
    rw [firstName?_cons]
    by_cases h : name = []
    · rw [if_pos h, ih]
    · simp [Place.fill, h]

def Place.outward (names : List Text) (place : Place) : Place :=
  { place with
    collection := Place.fill place.collection (firstName? names.tail)
    field := Place.fill place.field (firstName? names.dropLast) }

/-- On its way out an error takes the first names that are not empty. -/
theorem outward_error : Failure.outward names (.error ⟨problem, place⟩) =
    .error ⟨problem, place.outward names⟩ := by
  -- each pair of names is met before those further out
  induction names generalizing place with
  | nil => simp [Failure.outward, Place.outward, firstName?, fill_none]
  | cons name names ih =>
    cases names with
    | nil => simp [Failure.outward, Place.outward, firstName?, fill_none]
    | cons collection outer =>
      have hstep : Failure.outward (name :: collection :: outer) (.error ⟨problem, place⟩) =
          Failure.outward (collection :: outer) (.error ⟨problem,
            place.within { collection := some collection, field := some name }⟩) := rfl
      rw [hstep, ih]
      simp [Place.outward, Place.within, fill_fill, fill_none]

theorem outward_eq_error {α : Type} {x : Outcome α} {err : Error} :
    XmlHarvest.outward names x = .error (.error err) ↔ ∃ problem place,
      x = .error (.error ⟨problem, place⟩) ∧ err = ⟨problem, place.outward names⟩ := by
  rw [XmlHarvest.outward, Outcome.mapError_eq_error]
  constructor
  · rintro ⟨failure, hx, h⟩
    cases failure with
    | error known =>
      obtain ⟨problem, place⟩ := known
      rw [outward_error] at h
      cases h
      exact ⟨_, _, hx, rfl⟩
    | fault fault =>
      rw [outward_eq_fault.mpr rfl] at h
      cases h
  · rintro ⟨problem, place, hx, rfl⟩
    exact ⟨_, hx, outward_error⟩

end Names

def Action.place (collection path : Option Text) : Action → Place
  | .reach _ _ => { collection := Place.fill none collection, path := path }
  | .text _ | .full _ => { path := path }

theorem action_eq_error {s : Scope} {e : Element} {action : Action} {collection : Option Text}
    {err : Error} : action.run s collection e = .error (.error err) ↔
      ∃ problem path, action.Fails s e problem path ∧
        err = ⟨problem, action.place collection path⟩ := by
  cases action with
  | reach p segments =>
    rw [Action.run, withinPlace, Outcome.within, Outcome.mapError_eq_error]
    simp only [Outcome.effect_eq_error, follow_eq_error]
    constructor
    · rintro ⟨failure, ⟨tag, hstops, rfl⟩, h⟩
      cases h
      exact ⟨_, _, .reach hstops, rfl⟩
    · rintro ⟨problem, path, hfails, rfl⟩
      cases hfails with
      | reach hstops => exact ⟨_, ⟨_, hstops, rfl⟩, rfl⟩
  | text p =>
    rw [Action.run, Outcome.effect_eq_error, textAt_eq_error]
    constructor
    · rintro ⟨tag, hstops, h⟩
      cases h
      exact ⟨_, _, .text hstops, rfl⟩
    · rintro ⟨problem, path, hfails, rfl⟩
      cases hfails with
      | text hstops => exact ⟨_, hstops, rfl⟩
  | full f => exact Outcome.effect_eq_error.trans runFull_eq_error_iff

theorem place_outward (v : Visit) (path : Option Text) :
    (v.action.place v.names.head? path).outward v.names = v.place path := by
  obtain ⟨names, e, action⟩ := v
  cases action with
  | text p => simp [Action.place, Place.outward, Visit.place, Visit.collections, fill_firstName?]
  | full f => simp [Action.place, Place.outward, Visit.place, Visit.collections, fill_firstName?]
  | reach p segments =>
    cases names with
    | nil => rfl
    | cons name names =>
      simp [Action.place, Place.outward, Visit.place, Visit.collections, fill_firstName?, fill_fill]

/-- A visit fails with what its action fails with, at the place of the visit. -/
theorem visit_eq_error {s : Scope} {v : Visit} {err : Error} :
    v.run s = .error (.error err) ↔ ∃ problem path,
      v.action.Fails s v.element problem path ∧ err = ⟨problem, v.place path⟩ := by
  rw [Visit.run, outward_eq_error]
  simp only [action_eq_error, ← place_outward]
  constructor
  · rintro ⟨_, _, ⟨problem, path, hfails, h⟩, rfl⟩
    cases h
    exact ⟨_, _, hfails, rfl⟩
  · rintro ⟨problem, path, hfails, rfl⟩
    exact ⟨_, _, ⟨problem, path, hfails, rfl⟩, rfl⟩

/-- An extraction reports the first visit of its agenda that fails: what fails there,
and the innermost names around it that are not empty. -/
theorem extract_reports_first_failure (schema : Schema) (registry : Registry) (root : Element)
    (err : Error) :
    schema.extract registry root = .error (.error err) ↔
      ∃ before visit after problem path, schema.visits root = before ++ visit :: after ∧
        (∀ v ∈ before, v.run ⟨registry, schema.mappers⟩ = .ok ()) ∧
        visit.action.Fails ⟨registry, schema.mappers⟩ visit.element problem path ∧
        err = ⟨problem, visit.place path⟩ := by
  simp only [extract_eq_error, visit_eq_error]
  constructor
  · rintro ⟨before, visit, after, hvisits, hbefore, problem, path, hfails, herr⟩
    exact ⟨before, visit, after, problem, path, hvisits, hbefore, hfails, herr⟩
  · rintro ⟨before, visit, after, problem, path, hvisits, hbefore, hfails, herr⟩
    exact ⟨before, visit, after, hvisits, hbefore, problem, path, hfails, herr⟩

/-- A collection with one field, whose name is empty. -/
def namelessSchema : Schema :=
  ⟨[("c", ⟨.here, [("", .shorthand (Path.ofTag "x" (by decide +kernel)))]⟩)], []⟩

/-- The first name around its field that is not empty is that of a collection, which the
error does not report as a field. -/
theorem nameless_field_stays_nameless : ∃ visit err,
    namelessSchema.visits ⟨"r", []⟩ = [visit] ∧
    namelessSchema.extract (Registry.standard none) ⟨"r", []⟩ = .error (.error err) ∧
    firstName? visit.names = some ("c" : Text) ∧ err.place.field = none := by
  refine ⟨⟨["", "c"], ⟨"r", []⟩, .text (Path.ofTag "x" (by decide +kernel))⟩,
    ⟨.pathNotFound "x", { collection := some "c", path := some "x" }⟩, rfl, ?_, by decide, rfl⟩
  rfl

end XmlHarvest
