import XmlHarvest.Modifier.Registry
import XmlHarvest.Resolve
import XmlHarvest.Schema.Basic

/-! # Extraction

A schema applied to an element gives a record with one entry for each
collection: a list of records for a collection that selects elements, one
record otherwise.  Fields are evaluated in order, and the first failure ends
the extraction; an error carries the names of the innermost field and
collection around it. -/
set_option autoImplicit false

namespace XmlHarvest

open Xml

structure Scope where
  registry : Registry
  mappers : Mappers

/-- The innermost names around an error. -/
def withinPlace {α : Type} (collection field path : Option Text) (x : Outcome α) : Outcome α :=
  Outcome.within { collection := collection, field := field, path := path } x

namespace Scope

def applyAll (s : Scope) (modifiers : List ModifierRef) (v : Value) : Outcome Value :=
  modifiers.foldlM (fun v m => s.registry.apply m [v]) v

def runChain (s : Scope) (e : Element) : Chain → Outcome Value
  | .single p modifiers => do
    let text ← p.textAt e
    s.applyAll modifiers (.str text)
  | .combined p others combiner modifiers => do
    let texts ← Path.textsAt (p :: others) e
    let first ← s.registry.apply combiner (texts.map .str)
    s.applyAll modifiers first

def runFull (s : Scope) (e : Element) (f : FullField) : Outcome Value := do
  let v ← s.runChain e f.chain
  match f.mapper with
  | none => .ok v
  | some name => s.mappers.map name v s.registry.debug

/-- The elements at which a collection's records are evaluated, and whether the
records form a list. -/
inductive Anchored where
  | one (e : Element)
  | many (es : List Element)

/-- Resolves an anchor; an error carries the collection's name and the path. -/
def anchored (name : Option Text) (e : Element) : Anchor → Outcome Anchored
  | .here => .ok (.one e)
  | .within p => withinPlace name none (some p.text) (.one <$> p.node e)
  | .each p => withinPlace name none (some p.text) (.many <$> p.nodes e)

def collect (name : Option Text) (e : Element) (anchor : Anchor)
    (record : Element → Outcome (List (Scalar × Value))) : Outcome Value := do
  match ← anchored name e anchor with
  | .one target => do .ok (.map (← record target))
  | .many targets => do
    let records ← targets.mapM fun target => do .ok (Value.map (← record target))
    .ok (.list records)

mutual

def field (s : Scope) (name : Option Text) : FieldSpec → Element → Outcome Value
  | .shorthand p, e => Value.str <$> p.textAt e
  | .full f, e => s.runFull e f
  | .nested anchor fields, e => collect name e anchor (s.record name fields)

def record (s : Scope) (collection : Option Text) :
    List (Text × FieldSpec) → Element → Outcome (List (Scalar × Value))
  | [], _ => .ok []
  | (name, spec) :: rest, e => do
    let v ← withinPlace collection (some name) none (s.field (some name) spec e)
    let others ← s.record collection rest e
    .ok ((.str name, v) :: others)

end

def collection (s : Scope) (name : Option Text) (c : CollectionSpec) (e : Element) :
    Outcome Value :=
  collect name e c.anchor (s.record name c.fields)

/-- The value of a field whose nested collections are evaluated by `nested`. -/
def fieldWith (s : Scope)
    (nested : Element → CollectionSpec → Option Text → Outcome Value)
    (name : Option Text) (e : Element) : FieldSpec → Outcome Value
  | .nested anchor fields => nested e ⟨anchor, fields⟩ name
  | spec => s.field name spec e

end Scope

def Schema.extract (schema : Schema) (registry : Registry) (root : Element) : Outcome Value := do
  let scope : Scope := ⟨registry, schema.mappers⟩
  let entries ← schema.collections.mapM fun (name, c) => do
    let v ← scope.collection (some name) c root
    .ok (Scalar.str name, v)
  .ok (.map entries)

def unsupportedField {α : Type} (name : Option Text) (typeName : Text) : Outcome α :=
  .error (.error ⟨.malformedField ("Unsupported field spec type " ++ typeName),
    { field := name }⟩)

end XmlHarvest
