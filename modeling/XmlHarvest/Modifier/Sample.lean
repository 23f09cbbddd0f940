import XmlHarvest.Modifier.Reference
import XmlHarvest.Modifier.Signature
import XmlHarvest.Text.Case
import XmlHarvest.Text.Split
import XmlHarvest.Value.Coercion

/-! # Sample modifiers

A set of custom modifiers in three forms: a table, the members of an object,
and the members of a module, with the module itself.  It shows what a
capability can do, failures included. -/
set_option autoImplicit false

namespace XmlHarvest.Sample

open Text

/-- A value as an integer: numbers lose their fraction, texts have to write an
integer and nothing else.  A message shows at most two hundred characters of a
text. -/
def exactInteger : Value → Except Fault Int
  | .scalar (.bool b) => .ok (if b then 1 else 0)
  | .scalar (.int i) => .ok i
  | .scalar (.float x) => Value.truncated x
  | .scalar (.str s) =>
    match readInteger s with
    | .ok i => .ok i
    | .error (.tooLong n) => .error (.longNumeral n)
    | .error .malformed => .error (.notInteger 10 (excerpt s))
  | v => .error (.noInteger v.fullTypeName)

def minutesToHours (v : Value) : Except Fault Value := do
  let minutes ← exactInteger v
  let hours ← integerText (minutes.fdiv 60)
  .ok (.str (hours ++ "h " ++ toString (minutes.fmod 60) ++ "min"))

def surround (v left right : Value) : Except Fault Value := do
  let l ← left.text?
  let m ← v.text?
  let r ← right.text?
  .ok (.str (l ++ m ++ r))

def noAttribute (v : Value) (member : Text) : Fault :=
  .raised .attribute ("'" ++ v.fullTypeName ++ "' object has no attribute '" ++ member ++ "'")

def shout : Value → Except Fault Value
  | .scalar (.str s) => .ok (.str (upper s ++ "!"))
  | v => .error (noAttribute v "upper")

def double : Value → Except Fault Value
  | .scalar (.bool b) => .ok (.int (if b then 2 else 0))
  | .scalar (.int i) => .ok (.int (i * 2))
  | .scalar (.float x) => .ok (.float (x.times 2))
  | .scalar (.str s) => .ok (.str (s ++ s))
  | .list items => .ok (.list (items ++ items))
  | v => .error (.raised .type
      ("unsupported operand type(s) for *: '" ++ v.fullTypeName ++ "' and 'int'"))

def split : Value → Except Fault Value
  | .scalar (.str s) => .ok (.list ((splitOn (.char ',') s).map .str))
  | v => .error (noAttribute v "split")

def hidden (v : Value) : Except Fault Value := do
  .ok (.str ("hidden " ++ (← v.text?)))

/-- The functions of the set.  `owner` is put before a function's name in
messages; the functions of an object count the object as an argument. -/
def functions (owner : Text) (ofObject : Bool) : List (Text × Member) :=
  let one (name : Text) (f : Value → Except Fault Value) : Text × Member :=
    (name, .function fun args =>
      Outcome.ofFault (Signature.unary ⟨owner ++ name, ["value"], ofObject⟩ f args))
  [one "minutes_to_hours" minutesToHours,
   ("surround", .function fun args =>
      Outcome.ofFault (Signature.ternary ⟨owner ++ "surround", ["value", "left", "right"], ofObject⟩
        surround args)),
   one "shout" shout,
   one "as_int" fun v => do .ok (.int (← exactInteger v)),
   one "double" double,
   one "explode" fun _ => .error (.raised .runtime "boom"),
   one "nothing" fun _ => .ok .null,
   one "split" split,
   ("count", .function fun args => .ok (.int args.length)),
   one "truth" fun v => .ok (.bool v.truthy),
   ("unknown", .function fun args => do
      let _ ← Outcome.ofFault (Signature.check ⟨owner ++ "unknown", ["value"], ofObject⟩ args)
      .raise (.unknownModifier "inner")),
   one "_hidden" hidden]

def label : Text × Member := ("label", .constant)

def custom (callee : Text) (ofObject : Bool) : Text × Member :=
  ("to_i", .function fun args =>
    Outcome.ofFault
      (Signature.unary ⟨callee, ["value"], ofObject⟩ (fun _ => .ok (.str "custom")) args))

def table : List (Text × Member) :=
  let loud : Member := .function fun args =>
    Outcome.ofFault (Signature.unary ⟨"shout", ["value"], false⟩ shout args)
  functions "" false ++
    [custom "<lambda>" false, label, ("flag", .constant), ("with space", loud), ("", loud),
     ("é", loud)]

def object : List (Text × Member) :=
  functions "Custom." true ++ [custom "Custom.to_i" true, label]

def moduleMembers : List (Text × Member) :=
  functions "" false ++
    [label,
     ("Custom", .function fun args =>
        if args.isEmpty then .ok .null
        else .error (.fault (.raised .type "Custom() takes no arguments"))),
     ("INSTANCE", .constant), ("TABLE", .constant)]

def textOperations : List String :=
  ["capitalize", "casefold", "center", "count", "encode", "endswith", "expandtabs", "find",
   "format", "format_map", "index", "isalnum", "isalpha", "isascii", "isdecimal", "isdigit",
   "isidentifier", "islower", "isnumeric", "isprintable", "isspace", "istitle", "isupper",
   "join", "ljust", "lower", "lstrip", "maketrans", "partition", "removeprefix", "removesuffix",
   "replace", "rfind", "rindex", "rjust", "rpartition", "rsplit", "rstrip", "split",
   "splitlines", "startswith", "strip", "swapcase", "title", "translate", "upper", "zfill"]

/-- A text as an object.  Its operations take no value, so none can be applied. -/
def textMembers : List (Text × Member) :=
  textOperations.map fun name => (.ofString name, .function fun args =>
    .error (.fault (.raised .type ("str." ++ name ++ "() takes no arguments (" ++
      toString args.length ++ " given)"))))

def asModule : ModifierModule where
  whole := .supplier (.object moduleMembers)
  part name :=
    match parts.lookup name with
    | some part => .ok part
    | none => .error .missing
where
  parts : List (Text × Part) :=
    (functions "" false).map (fun (f, _) => (f, .supplier (.object []))) ++ namedParts
  namedParts : List (Text × Part) :=
    [("label", .supplier (.object textMembers)), ("Custom", .maker (.ok (.object object))),
     ("INSTANCE", .supplier (.object object)), ("TABLE", .supplier (.table table))]

/-- Imports the set under a name.  It holds no further modules. -/
def importer (known : Text) : Importer := fun name =>
  match splitOn (.char '.') name with
  | first :: rest =>
    if first != known then refuse ("No module named " ++ quote first)
    else
      match rest with
      | [] => .ok asModule
      | second :: _ =>
        refuse ("No module named " ++ quote (first ++ "." ++ second) ++ "; " ++ quote first ++
          " is not a package")
  | [] => refuse ("No module named " ++ quote name)
where
  refuse (text : Text) : Except ImportProblem ModifierModule := .error (.refused (.ok text))

end XmlHarvest.Sample
