import XmlHarvest.Modifier.Builtin
import XmlHarvest.Modifier.Capability
import XmlHarvest.Modifier.Ref

/-! # Resolving modifiers

A registry looks a name up among the built-in modifiers first and in the
capability second.  Applying a reference calls the modifier with the values
followed by the reference's parameters; what the modifier fails with becomes a
transformation error that reports the values and the failure.  A log of all
details shows the values and the parameters before the call. -/
set_option autoImplicit false

namespace XmlHarvest

structure Registry where
  builtins : List (Text × Transform)
  capability : Option Capability
  /-- Whether the log shows all details. -/
  debug : Bool := false

namespace Registry

def standard (capability : Option Capability) : Registry where
  builtins := Builtin.all.map Builtin.entry
  capability := capability

def restricted (names : List Text) (capability : Option Capability) : Registry where
  builtins := (Builtin.all.filter fun b => names.contains b.name).map Builtin.entry
  capability := capability

def builtin? (r : Registry) (name : Text) : Option Transform := r.builtins.lookup name

def knows (r : Registry) (name : Text) : Bool :=
  (r.builtin? name).isSome ||
    match r.capability with
    | some c => c.knows name
    | none => false

def resolve (r : Registry) (name : Text) : Outcome Transform :=
  match r.builtin? name with
  | some f => .ok f
  | none =>
    match r.capability with
    | some c => if c.knows name then .ok (c.invoke name) else .raise (.unknownModifier name)
    | none => .raise (.unknownModifier name)

/-- What a failure reports as its source: a single value as it is, several as
a list. -/
def source : List Value → Value
  | [v] => v
  | values => .list values

/-- What is said of a modifier's failure.  It shows the source and the
failure's own text, and either may have no text. -/
def report (ref : ModifierRef) (values : List Value) (cause : Failure) : Except Fault Text := do
  let shown ← (source values).display?
  let reason ← cause.text?
  .ok ("Modifier '" ++ ref.name ++ "' failed on value " ++ shown ++ ": " ++ reason)

/-- What a modifier's failure becomes: a transformation error, or the bare fault
that keeps the report from being written. -/
def transformation (ref : ModifierRef) (values : List Value) (cause : Failure) : Failure :=
  match report ref values cause with
  | .error fault => .fault fault
  | .ok message =>
    .of (.transformation message (some ref.name) (some (source values)) (some cause))

/-- Shows the values and the parameters of a call, if the log shows all details.
What becomes of the entry is of no concern; that it can be written is. -/
def show? (r : Registry) (ref : ModifierRef) (values : List Value) : Except Fault Unit :=
  if r.debug then do
    let _ ← (Value.list values).display?
    let _ ← (Value.list ref.params).display?
    .ok ()
  else .ok ()

def apply (r : Registry) (ref : ModifierRef) (values : List Value) : Outcome Value := do
  let f ← r.resolve ref.name
  Outcome.ofFault (r.show? ref values)
  match f (values ++ ref.params) with
  | .ok v => .ok v
  | .error cause => .error (transformation ref values cause)

end Registry
end XmlHarvest
