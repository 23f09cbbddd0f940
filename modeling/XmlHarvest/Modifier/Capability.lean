import XmlHarvest.Error

/-! # Custom modifiers

A capability supplies modifiers by name.  It is given as a table, in which
every name counts, or as an object with members, of which those whose names
begin with an underscore are private. -/
set_option autoImplicit false

namespace XmlHarvest

/-- What a modifier does with its arguments: the values, then the parameters. -/
abbrev Transform : Type := List Value → Outcome Value

structure Capability where
  knows : Text → Bool
  call : Text → Transform

inductive Member where
  | function (f : Transform)
  | constant

namespace Capability

def function? (members : List (Text × Member)) (name : Text) : Option Transform :=
  match members.lookup name with
  | some (.function f) => some f
  | _ => none

/-- The capability that supplies the functions for which `find` has an
answer. -/
def ofFind (find : Text → Option Transform) : Capability where
  knows name := (find name).isSome
  call name args :=
    match find name with
    | some f => f args
    | none => .raise (.unknownModifier name)

def ofTable (entries : List (Text × Member)) : Capability :=
  ofFind (function? entries)

def isPrivate (name : Text) : Bool := name.head? == some (.char '_')

/-- The functions among an object's members are modifiers, unless their names
begin with an underscore. -/
def ofObject (members : List (Text × Member)) : Capability :=
  ofFind fun name => if isPrivate name then none else function? members name

def invoke (c : Capability) (name : Text) (args : List Value) : Outcome Value :=
  if c.knows name then c.call name args else .raise (.unknownModifier name)

end Capability
end XmlHarvest
