import XmlHarvest.Error
import XmlHarvest.Value.Text

/-! # Mappers

A mapper replaces a value by the output under which the value's text is
listed, and by a default when it is not listed.  A schema writes the table
output first: each output with the raw values that it stands for.  Reading the
table turns it round, and refuses a raw value that is listed twice. -/
set_option autoImplicit false

namespace XmlHarvest

structure Mapper where
  name : Text
  default : Value
  /-- The text of each raw value with its output. -/
  options : List (Text × Value)

/-- The values that are keys of a map but not among `known`, as texts in
sorted order. -/
def unknownKeys (known : List Text) (entries : List (Scalar × Value)) :
    Except Fault (List Text) := do
  let strangers := entries.filter fun (k, _) => !(known.any fun n => k.same (.str n))
  let texts ← strangers.mapM fun (k, _) => k.text?
  .ok (texts.mergeSort fun a b => decide (a ≤ b))

def quotedList (texts : List Text) : Text :=
  "[" ++ Text.joinWith ", " (texts.map Text.quote) ++ "]"

namespace Mapper

/-- The raw values that an output stands for: the members of a list, or one
value. -/
def rawValues : Value → List Value
  | .list items => items
  | v => [v]

/-- A raw value that is a truth value matches only the text of that truth
value, which is worth a warning. -/
def notice (name output raw : Text) : Text :=
  "Mapper '" ++ name ++ "' option '" ++ output ++ "' has boolean raw value " ++ raw ++
    "; it only matches the text '" ++ raw ++ "'. Quote the value in YAML to match it literally"

structure Inversion where
  options : List (Text × Value) := []
  notices : List Text := []

def addRaw (name : Text) (output : Scalar) (acc : Inversion) (raw : Value) :
    Outcome Inversion := do
  let notices ← match raw with
    | .scalar (.bool b) => do
      let shown ← Outcome.ofFault output.text?
      let truth ← Outcome.ofFault (Scalar.bool b).text?
      .ok (acc.notices ++ [notice name shown truth])
    | _ => .ok acc.notices
  let key ← Outcome.ofFault raw.text?
  match Ordered.get? acc.options key with
  | some other => do
    let first ← Outcome.ofFault other.text?
    let second ← Outcome.ofFault output.text?
    .raise (.definition ("Mapper '" ++ name ++ "' declares raw value '" ++ key ++ "' for both '" ++
      first ++ "' and '" ++ second ++ "'"))
  | none => .ok ⟨acc.options ++ [(key, .scalar output)], notices⟩

def addOutput (name : Text) (acc : Inversion) (entry : Scalar × Value) : Outcome Inversion :=
  (rawValues entry.2).foldlM (addRaw name entry.1) acc

/-- The entries of an optional section: a value that counts as false stands
for an empty section. -/
def section? : Option Value → Option (List (Scalar × Value))
  | none => some []
  | some (.map entries) => some entries
  | some v => if v.truthy then none else some []

def read (name : Text) (definition : Value) : Outcome (Mapper × List Text) :=
  match definition with
  | .map entries => do
    let unknown ← Outcome.ofFault (unknownKeys ["default", "options"] entries)
    if !unknown.isEmpty then
      .raise (.definition ("Mapper '" ++ name ++ "' has unknown keys: " ++ quotedList unknown))
    else
      match section? (Value.entry? entries "options") with
      | none => .raise (.definition ("Mapper '" ++ name ++ "' options must be a mapping"))
      | some options => do
        let inverted ← options.foldlM (addOutput name) {}
        .ok (⟨name, (Value.entry? entries "default").getD .null, inverted.options⟩,
          inverted.notices)
  | _ => .raise (.definition ("Mapper '" ++ name ++ "' must be a mapping with default/options"))

/-- The output for a value: the one listed under its text, or the default.  A log
of all details shows a default before it is used. -/
def map (m : Mapper) (raw : Value) (debug : Bool := false) : Outcome Value := do
  let key ← Outcome.ofFault raw.text?
  match Ordered.get? m.options key with
  | some output => .ok output
  | none => do
    if debug then
      let _ ← Outcome.ofFault m.default.display?
    .ok m.default

end Mapper

abbrev Mappers : Type := List (Text × Mapper)

namespace Mappers

def map (mappers : Mappers) (name : Text) (raw : Value) (debug : Bool := false) :
    Outcome Value :=
  match Ordered.get? mappers name with
  | some m => m.map raw debug
  | none => .raise (.unknownMapper name)

def read (entries : List (Scalar × Value)) : Outcome (Mappers × List Text) :=
  entries.foldlM (fun (mappers, notices) (k, definition) => do
    let name ← Outcome.ofFault k.text?
    let (m, more) ← Mapper.read name definition
    .ok (Ordered.put name m mappers, notices ++ more)) ([], [])

end Mappers
end XmlHarvest
