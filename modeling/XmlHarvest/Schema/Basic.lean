import XmlHarvest.Mapper
import XmlHarvest.Modifier.Ref
import XmlHarvest.Path

/-! # Schemas

A schema names collections.  A collection has an anchor, which says at which
elements its records are evaluated, and fields, each of which becomes one entry
of a record: the text at a path, a text passed through modifiers and a mapper,
or a collection of its own. -/
set_option autoImplicit false

namespace XmlHarvest

/-- The elements at which the records of a collection are evaluated. -/
inductive Anchor where
  /-- One record, at the element itself. -/
  | here
  /-- One record, at the element that the path reaches. -/
  | within (path : Path)
  /-- One record for each element that the path selects. -/
  | each (path : Path)
  deriving DecidableEq

namespace Anchor

def arrayOf? : Anchor → Option Path
  | each p => some p
  | _ => none

def within? : Anchor → Option Path
  | within p => some p
  | _ => none

end Anchor

inductive Chain where
  /-- The text at one path goes through the modifiers in turn. -/
  | single (path : Path) (modifiers : List ModifierRef)
  /-- The texts at several paths are combined by the first modifier. -/
  | combined (path : Path) (others : List Path) (combiner : ModifierRef)
      (modifiers : List ModifierRef)

namespace Chain

def paths : Chain → List Path
  | single p _ => [p]
  | combined p ps _ _ => p :: ps

def modifiers : Chain → List ModifierRef
  | single _ ms => ms
  | combined _ _ m ms => m :: ms

def isCombined : Chain → Bool
  | single _ _ => false
  | combined _ _ _ _ => true

/-- The chain with the given paths and modifiers.  Several paths need a
modifier that combines them. -/
def ofParts (paths : List Path) (modifiers : List ModifierRef) (combined : Bool) :
    Outcome Chain :=
  match paths, modifiers, combined with
  | [], _, _ => .raise (.malformedField "path list cannot be empty")
  | _ :: _, [], true => .raise .missingModifier
  | p :: ps, m :: ms, true => .ok (.combined p ps m ms)
  | [p], ms, false => .ok (.single p ms)
  | _ :: _ :: _, _, false =>
    .raise (.malformedField "a single-path field must carry exactly one path")

end Chain

structure FullField where
  chain : Chain
  mapper : Option Text

namespace FullField

def mapperName : Value → Outcome (Option Text)
  | .scalar .null => .ok none
  | .scalar (.str s) =>
    if s == "" then .raise (.malformedField "mapper must be a mapper name, got ''")
    else .ok (some s)
  | other => do
    let shown ← Outcome.ofFault other.display?
    .raise (.malformedField ("mapper must be a mapper name, got " ++ shown))

def ofParts (paths : List Path) (modifiers : List ModifierRef) (mapper : Value)
    (combined : Bool) : Outcome FullField := do
  let chain ← Chain.ofParts paths modifiers combined
  let name ← mapperName mapper
  .ok ⟨chain, name⟩

end FullField

inductive FieldSpec where
  /-- The text at a path. -/
  | shorthand (path : Path)
  | full (field : FullField)
  /-- A collection, evaluated at the element that the field is evaluated at. -/
  | nested (anchor : Anchor) (fields : List (Text × FieldSpec))

structure CollectionSpec where
  anchor : Anchor
  fields : List (Text × FieldSpec)

namespace CollectionSpec

/-- The collection with the given fields.  It has a field, and at most one of
the two paths. -/
def ofParts (fields : List (Text × FieldSpec)) (arrayOf within : Option Path) :
    Outcome CollectionSpec :=
  if fields.isEmpty then
    .raise (.malformedField "a collection must declare at least one field")
  else
    match arrayOf, within with
    | some _, some _ =>
      .raise (.malformedField "a collection cannot declare both array_of and within")
    | some p, none => .ok ⟨.each p, fields⟩
    | none, some p => .ok ⟨.within p, fields⟩
    | none, none => .ok ⟨.here, fields⟩

def asField (c : CollectionSpec) : FieldSpec := .nested c.anchor c.fields

end CollectionSpec

structure Schema where
  collections : List (Text × CollectionSpec)
  mappers : Mappers

namespace Schema

def ofParts (collections : List (Text × CollectionSpec)) (mappers : Mappers) :
    Outcome Schema :=
  if collections.isEmpty then
    .raise (.definition "At least one collection must be specified")
  else .ok ⟨collections, mappers⟩

end Schema
end XmlHarvest
