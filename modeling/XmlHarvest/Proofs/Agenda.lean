import XmlHarvest.Extraction
import XmlHarvest.Proofs.Outcome

/-! # The order of an evaluation

What an extraction does, one step after the other: it follows the path of an
anchor, reads the text at a path, or evaluates a full field, each at an element
and under the names of the fields and collections around it.  An extraction
fails exactly when a step of its agenda does, with the failure of the first one
that does. -/
set_option autoImplicit false

namespace XmlHarvest

open Xml

inductive Action where
  /-- Follows the segments of an anchor's path. -/
  | reach (p : Path) (segments : List Text)
  | text (p : Path)
  | full (f : FullField)

/-- An action at an element.  The names are those of the field or collection and of
all that is around it, innermost first; a nested collection has the name of its
field. -/
structure Visit where
  names : List Text
  element : Element
  action : Action

/-- The steps of a collection whose records take the steps of `record`. -/
def Anchor.visits (names : List Text) (record : Element → List Visit) :
    Anchor → Element → List Visit
  | .here, e => record e
  | .within p, e =>
    ⟨names, e, .reach p p.segments⟩ ::
      match descend e p.segments with
      | .ok target => record target
      | .error _ => []
  | .each p, e =>
    ⟨names, e, .reach p p.parent⟩ ::
      match descend e p.parent with
      | .ok parent => (parent.childrenTagged p.terminal).flatMap record
      | .error _ => []

mutual

def FieldSpec.visits (names : List Text) : FieldSpec → Element → List Visit
  | .shorthand p, e => [⟨names, e, .text p⟩]
  | .full f, e => [⟨names, e, .full f⟩]
  | .nested anchor fields, e => anchor.visits names (FieldSpec.recordVisits names fields) e

def FieldSpec.recordVisits (names : List Text) :
    List (Text × FieldSpec) → Element → List Visit
  | [], _ => []
  | (name, spec) :: rest, e =>
    spec.visits (name :: names) e ++ FieldSpec.recordVisits names rest e

end

def Schema.visits (schema : Schema) (root : Element) : List Visit :=
  schema.collections.flatMap fun (name, c) =>
    c.anchor.visits [name] (FieldSpec.recordVisits [name] c.fields) root

/-- A failure on its way out of a field or nested collection is given the names
around it, pair by pair. -/
def Failure.outward : List Text → Failure → Failure
  | name :: collection :: outer, failure =>
    (failure.within { collection := some collection, field := some name }).outward
      (collection :: outer)
  | [_], failure => failure
  | [], failure => failure

theorem outward_eq_fault {names : List Text} {failure : Failure} {fault : Fault} :
    failure.outward names = .fault fault ↔ failure = .fault fault := by
  induction names generalizing failure with
  | nil => rfl
  | cons name names ih =>
    cases names with
    | nil => rfl
    | cons collection outer =>
      rw [Failure.outward, ih]
      cases failure with
      | error e => simp [Failure.within]
      | fault f => rfl

def outward {α : Type} (names : List Text) (x : Outcome α) : Outcome α :=
  x.mapError (Failure.outward names)

def Action.run (s : Scope) (collection : Option Text) (e : Element) :
    Action → Outcome Unit
  | .reach p segments =>
    withinPlace collection none (some p.text) (Outcome.effect (p.follow segments e))
  | .text p => Outcome.effect (p.textAt e)
  | .full f => Outcome.effect (s.runFull e f)

def Visit.run (s : Scope) (v : Visit) : Outcome Unit :=
  outward v.names (v.action.run s v.names.head? v.element)

theorem outward_withinPlace {α : Type} {name collection : Text} {outer : List Text}
    {x : Outcome α} :
    outward (collection :: outer) (withinPlace (some collection) (some name) none x) =
      outward (name :: collection :: outer) x := by
  cases x with
  | ok a => rfl
  | error failure => rfl

theorem outward_top {α : Type} {name : Text} {x : Outcome α} : outward [name] x = x := by
  cases x with
  | ok a => rfl
  | error failure => rfl

/-- Naming the places around a failure and forgetting a result commute. -/
theorem effect_outward {α : Type} (names : List Text) (x : Outcome α) :
    Outcome.effect (outward names x) = outward names (Outcome.effect x) :=
  Outcome.effect_mapError _ _

theorem outward_bind {α β : Type} (names : List Text) (x : Outcome α) (f : α → Outcome β) :
    outward names (x >>= f) = outward names x >>= fun a => outward names (f a) :=
  Outcome.mapError_bind _ _ _

theorem outward_forM {α : Type} (names : List Text) (f : α → Outcome Unit) (as : List α) :
    outward names (forM as f) = forM as fun a => outward names (f a) :=
  Outcome.mapError_forM _ _ _

section Enact

variable {s : Scope} {name : Text} {outer : List Text} {e : Element}

/-- Following an anchor's path, as part of the agenda and as part of the
evaluation. -/
theorem run_reach (p : Path) (segments : List Text) :
    Visit.run s ⟨name :: outer, e, .reach p segments⟩ =
      outward (name :: outer)
        (withinPlace (some name) none (some p.text) (Outcome.effect (p.follow segments e))) := rfl

theorem effect_collect (anchor : Anchor) {record : Element → Outcome (List (Scalar × Value))}
    {visits : Element → List Visit}
    (h : ∀ target, Outcome.effect (outward (name :: outer) (record target)) =
      forM (visits target) (Visit.run s)) :
    Outcome.effect (outward (name :: outer) (Scope.collect (some name) e anchor record)) =
      forM (anchor.visits (name :: outer) visits e) (Visit.run s) := by
  have hrecord : ∀ target, outward (name :: outer) (Outcome.effect (record target)) =
      forM (visits target) (Visit.run s) := fun target => by rw [← effect_outward, h]
  rw [effect_outward]
  cases anchor with
  | here =>
    rw [Anchor.visits, ← hrecord]
    exact congrArg _ (Outcome.effect_then_ok _ _)
  | within p =>
    rw [Anchor.visits, List.forM_cons, run_reach]
    simp only [Scope.collect, Scope.anchored, Path.node, Path.follow]
    cases descend e p.segments with
    | error tag => exact (bind_pure _).symm
    | ok target =>
      change outward _ (Outcome.effect (record target >>= fun entries => .ok (Value.map entries))) =
        .ok () >>= fun _ => forM (visits target) (Visit.run s)
      rw [Outcome.effect_then_ok, hrecord]
      rfl
  | each p =>
    rw [Anchor.visits, List.forM_cons, run_reach]
    simp only [Scope.collect, Scope.anchored, Path.nodes, Path.follow]
    cases descend e p.parent with
    | error tag => exact (bind_pure _).symm
    | ok parent =>
      change outward _ (Outcome.effect ((parent.childrenTagged p.terminal).mapM
          (fun target => record target >>= fun entries => .ok (Value.map entries)) >>=
            fun records => .ok (Value.list records))) =
        .ok () >>= fun _ =>
          forM ((parent.childrenTagged p.terminal).flatMap visits) (Visit.run s)
      rw [Outcome.effect_then_ok, Outcome.effect_mapM, outward_forM, Outcome.forM_flatMap]
      simp only [Outcome.effect_then_ok, hrecord]
      rfl

mutual

theorem effect_field (spec : FieldSpec) (name : Text) (outer : List Text) (e : Element) :
    Outcome.effect (outward (name :: outer) (s.field (some name) spec e)) =
      forM (spec.visits (name :: outer) e) (Visit.run s) := by
  cases spec with
  | shorthand p =>
    rw [Scope.field, FieldSpec.visits, List.forM_cons, List.forM_nil, bind_pure, effect_outward,
      Outcome.effect_map]
    rfl
  | full f =>
    rw [Scope.field, FieldSpec.visits, List.forM_cons, List.forM_nil, bind_pure, effect_outward]
    rfl
  | nested anchor fields =>
    rw [Scope.field, FieldSpec.visits]
    exact effect_collect anchor fun target => effect_record fields name outer target

theorem effect_record (fields : List (Text × FieldSpec)) (collection : Text)
    (outer : List Text) (e : Element) :
    Outcome.effect (outward (collection :: outer) (s.record (some collection) fields e)) =
      forM (FieldSpec.recordVisits (collection :: outer) fields e) (Visit.run s) := by
  cases fields with
  | nil =>
    rw [Scope.record, FieldSpec.recordVisits]
    rfl
  | cons field rest =>
    obtain ⟨name, spec⟩ := field
    have hspec := effect_field spec name (collection :: outer) e
    have hrest := effect_record rest collection outer e
    rw [Scope.record, FieldSpec.recordVisits, List.forM_append, ← hspec, ← hrest,
      ← outward_withinPlace, Outcome.effect_then, outward_bind, Outcome.effect_bind]
    simp only [effect_outward, Outcome.effect_then_ok]

end

end Enact

/-- An extraction does what its agenda says. -/
theorem effect_extract (schema : Schema) (registry : Registry) (root : Element) :
    Outcome.effect (schema.extract registry root) =
      forM (schema.visits root) (Visit.run ⟨registry, schema.mappers⟩) := by
  rw [Schema.extract, Schema.visits, Outcome.effect_then_ok, Outcome.effect_mapM,
    Outcome.forM_flatMap]
  congr 1
  funext entry
  obtain ⟨name, c⟩ := entry
  have hcollection := effect_collect (e := root) c.anchor fun target =>
    effect_record (s := ⟨registry, schema.mappers⟩) c.fields name [] target
  rw [outward_top] at hcollection
  rw [Outcome.effect_then_ok]
  exact hcollection

/-- An extraction fails with the failure of the first visit that fails. -/
theorem extract_eq_error (schema : Schema) (registry : Registry) (root : Element)
    (failure : Failure) :
    schema.extract registry root = .error failure ↔
      ∃ before visit after, schema.visits root = before ++ visit :: after ∧
        (∀ v ∈ before, v.run ⟨registry, schema.mappers⟩ = .ok ()) ∧
        visit.run ⟨registry, schema.mappers⟩ = .error failure := by
  rw [← Outcome.effect_eq_error, effect_extract, Outcome.forM_eq_error]

end XmlHarvest
