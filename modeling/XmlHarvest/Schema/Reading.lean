import XmlHarvest.Schema.Basic

/-! # Reading a schema document

A document is a map with a section of collections and an optional section of
mappers.  Each shape is recognised once.  An error in a collection carries the
collection's name and the name of the innermost field in which it lies. -/
set_option autoImplicit false

namespace XmlHarvest

structure Sections where
  schemas : Text := "schemas"
  mappers : Text := "mappers"

namespace ModifierRef

/-- Parameters: a list, one value that stands for a list of itself, or
nothing. -/
def readParams : Option Value → List Value
  | none => []
  | some (.list items) => items
  | some v => if v.truthy then [v] else []

def read : Value → Outcome ModifierRef
  | .scalar (.str name) => ofName name []
  | .map entries => do
    let unknown ← Outcome.ofFault (unknownKeys ["name", "params"] entries)
    if !unknown.isEmpty then
      .raise (.malformedField ("Unknown keys " ++ quotedList unknown ++ " in modifier"))
    else
      ofValue ((Value.entry? entries "name").getD .null)
        (readParams (Value.entry? entries "params"))
  | other => do
    let shown ← Outcome.ofFault other.display?
    .raise (.malformedField ("Unrecognized modifier " ++ shown))

def readAll : Value → Outcome (List ModifierRef)
  | .scalar .null => .ok []
  | .list items => items.mapM read
  | other => do .ok [← read other]

end ModifierRef

namespace FullField

def read (name : Option Text) (entries : List (Scalar × Value)) (path : Value) :
    Outcome FullField := do
  let (paths, combined) ← match path with
    | .list items => do
      let paths ← items.mapM Path.ofValue
      .ok (paths, true)
    | other => do
      let p ← Path.ofValue other
      .ok ([p], false)
  let modifiers ← ModifierRef.readAll ((Value.entry? entries "modifier").getD .null)
  if combined && modifiers.isEmpty then
    .error (.error ⟨.missingModifier, { field := name }⟩)
  else ofParts paths modifiers ((Value.entry? entries "mapper").getD .null) combined

end FullField

def presentKeys (names : List Text) (entries : List (Scalar × Value)) : List Text :=
  names.filter fun n => (Value.entry? entries n).isSome

def readPathAt (entries : List (Scalar × Value)) (key : Text) : Outcome (Option Path) :=
  match Value.entry? entries key with
  | none => .ok none
  | some v => do .ok (some (← Path.ofValue v))

def malformed {α : Type} (field : Option Text) (message : Text) : Outcome α :=
  .error (.error ⟨.malformedField message, { field := field }⟩)

def withinField {α : Type} (name : Text) (x : Outcome α) : Outcome α :=
  Outcome.within { field := some name } x

/-- The collection with the fields that `readFields` gives.  The paths are read
before the fields. -/
def CollectionSpec.readWith (entries : List (Scalar × Value))
    (readFields : Outcome (List (Text × FieldSpec))) : Outcome CollectionSpec := do
  let arrayOf ← readPathAt entries "array_of"
  let within ← readPathAt entries "within"
  let fields ← readFields
  ofParts fields arrayOf within

inductive FieldShape where
  | collection
  | full (path : Value)

/-- The shape of a field that is a map; the keys of the two shapes exclude each
other. -/
def FieldShape.of (name : Option Text) (entries : List (Scalar × Value)) :
    Outcome FieldShape :=
  match Value.entry? entries "array_of", Value.entry? entries "path" with
  | some _, _ =>
    match presentKeys ["mapper", "modifier", "path"] entries with
    | [] => .ok .collection
    | clashing => malformed name
      ("A nested array field cannot also declare " ++ quotedList clashing)
  | none, some path => do
    let unknown ← Outcome.ofFault (unknownKeys ["path", "modifier", "mapper"] entries)
    if unknown.isEmpty then .ok (.full path)
    else malformed name ("Unknown keys " ++ quotedList unknown ++ " in field spec")
  | none, none =>
    match presentKeys ["mapper", "modifier"] entries with
    | [] => .ok .collection
    | clashing => malformed name (quotedList clashing ++ " declared without a path")

def isAnchorKey (k : Scalar) : Bool :=
  k.same (.str "array_of") || k.same (.str "within")

mutual

def FieldSpec.read (name : Option Text) : Value → Outcome FieldSpec
  | .scalar (.str raw) => do .ok (.shorthand (← Path.lift (Path.parse raw)))
  | .map [] => malformed name "Unrecognized field spec \x7b\x7d"
  | .map (entry :: more) => do
    match ← FieldShape.of name (entry :: more) with
    | .full path => do .ok (.full (← FullField.read name (entry :: more) path))
    | .collection => do
      let c ← CollectionSpec.readWith (entry :: more) (FieldSpec.readFields [] (entry :: more))
      .ok c.asField
  | other => do
    let shown ← Outcome.ofFault other.display?
    malformed name ("Unrecognized field spec " ++ shown)

/-- Reads the fields of a collection after those in `acc`. -/
def FieldSpec.readFields (acc : List (Text × FieldSpec)) :
    List (Scalar × Value) → Outcome (List (Text × FieldSpec))
  | [] => .ok acc
  | (k, v) :: rest =>
    if isAnchorKey k then FieldSpec.readFields acc rest
    else do
      let name ← Outcome.ofFault k.text?
      let field ← withinField name (FieldSpec.read (some name) v)
      FieldSpec.readFields (Ordered.put name field acc) rest

end

def CollectionSpec.read (entries : List (Scalar × Value)) : Outcome CollectionSpec :=
  readWith entries (FieldSpec.readFields [] entries)

namespace Schema

def readCollection (name : Text) : Value → Outcome CollectionSpec
  | .map (entry :: more) =>
    Outcome.within { collection := some name } (CollectionSpec.read (entry :: more))
  | _ => malformed (some name) ("Collection '" ++ name ++ "' must be a non-empty mapping of fields")

def readCollections (entries : List (Scalar × Value)) : Outcome (List (Text × CollectionSpec)) :=
  entries.foldlM (fun collections (k, v) => do
    let name ← Outcome.ofFault k.text?
    let c ← readCollection name v
    .ok (Ordered.put name c collections)) []

def readMappers (sections : Sections) : Value → Outcome (Mappers × List Text)
  | .map entries => Mappers.read entries
  | _ => .raise (.definition
      ("'" ++ sections.mappers ++ "' must be a mapping of mapper name to definition"))

/-- A mappers section that counts as false declares none. -/
def readOptionalMappers (sections : Sections) : Option Value → Outcome (Mappers × List Text)
  | none => .ok ([], [])
  | some v => if v.truthy then readMappers sections v else .ok ([], [])

def readWith (sections : Sections) (data : Value) : Outcome (Schema × List Text) :=
  match data with
  | .map entries => do
    let unknown ← Outcome.ofFault (unknownKeys [sections.schemas, sections.mappers] entries)
    if !unknown.isEmpty then
      .raise (.definition ("Unknown schema sections: " ++ quotedList unknown))
    else
      match Value.entry? entries sections.schemas with
      | some (.map (entry :: more)) => do
        let (mappers, notices) ← readOptionalMappers sections (Value.entry? entries sections.mappers)
        let collections ← readCollections (entry :: more)
        let schema ← ofParts collections mappers
        .ok (schema, notices)
      | _ => .raise (.definition
          ("Schema document needs a non-empty '" ++ sections.schemas ++ "' section"))
  | other => .raise (.definition ("Schema document must be a mapping, got " ++ other.typeName))

def read (data : Value) : Outcome Schema :=
  Prod.fst <$> readWith {} data

end Schema
end XmlHarvest
