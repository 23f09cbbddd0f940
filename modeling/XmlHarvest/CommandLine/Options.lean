import XmlHarvest.Log
import XmlHarvest.Number.Reading
import XmlHarvest.Text.Split

/-! # Options of the command line

The arguments are a schema, documents and options, in any order.  Options are
recognised first, each argument by itself; a name may be cut short as long as
one option is left, and two dashes alone end the options.  Then the arguments
are consumed from left to right: a run of plain arguments goes to the schema
and the documents, as many as can be served at once, and an option takes its
value. -/
set_option autoImplicit false

namespace XmlHarvest

inductive Refusal where
  | invalid
  /-- The user asked for help. -/
  | help
  deriving DecidableEq, Repr

structure Options where
  schema : Text
  documents : List Text
  modifiers : Option Text := none
  indent : Int
  level : LogLevel
  deriving DecidableEq, Repr

namespace CommandLine

inductive OptionName where
  | help
  | modifiers
  | indent
  | level
  deriving DecidableEq, Repr

def spellings : List (Text × OptionName) :=
  [("--help", .help), ("--modifiers", .modifiers), ("--indent", .indent),
   ("--log-level", .level)]

def separator : Text := "--"

inductive Argument where
  | plain (text : Text)
  | separator
  /-- An option with the value that is attached to it. -/
  | option (name : OptionName) (value : Option Text)
  /-- The short spelling of help with what is attached to it. -/
  | shortHelp (more : Text)
  | unknown (text : Text)
  deriving DecidableEq, Repr

namespace Argument

def plainText? : Argument → Option Text
  | plain text => some text
  | separator => some CommandLine.separator
  | _ => none

def isPlain : Argument → Bool
  | plain _ => true
  | _ => false

end Argument

def splitValue (text : Text) : Text × Option Text :=
  match Text.cutAt? (.char '=') text with
  | some (before, after) => (before, some after)
  | none => (text, none)

def candidates (text : Text) : List Argument :=
  match text with
  | '-' :: '-' :: _ =>
    let (start, value) := splitValue text
    (spellings.filter fun (s, _) => Text.startsWith start s).map fun (_, name) =>
      .option name value
  | '-' :: 'h' :: more => [.shortHelp more]
  | _ => []

/-- A minus sign and a number; a line feed may follow. -/
def isNegativeNumber (text : Text) : Bool :=
  match text with
  | '-' :: cs =>
    let cs := if cs.getLast? == some (.char '\n') then cs.dropLast else cs
    match cs.dropWhile Text.isDigit with
    | [] => !cs.isEmpty
    | '.' :: fraction => !fraction.isEmpty && fraction.all Text.isDigit
    | _ => false
  | _ => false

/-- The option that a text spells in full, with or without a value. -/
def inFull? (text : Text) : Option Argument :=
  let (start, value) := splitValue text
  (spellings.lookup start).map fun name => .option name value

def classify (text : Text) : Except Refusal Argument :=
  match text with
  | '-' :: _ :: _ =>
    match inFull? text with
    | some a => .ok a
    | none =>
      match candidates text with
      | [a] => .ok a
      | _ :: _ => .error .invalid
      | [] =>
        if isNegativeNumber text || text.contains ' ' then .ok (.plain text)
        else .ok (.unknown text)
  | _ => .ok (.plain text)

/-- All arguments; after the end of the options every one is plain. -/
def classifyAll : List Text → Except Refusal (List Argument)
  | [] => .ok []
  | text :: rest =>
    if text == separator then .ok (.separator :: rest.map .plain)
    else do
      let first ← classify text
      let others ← classifyAll rest
      .ok (first :: others)

structure Progress where
  schema : Option Text := none
  documents : Option (List Text) := none
  modifiers : Option Text := none
  indent : Int
  level : LogLevel
  /-- Some argument was neither an option nor asked for. -/
  surplus : Bool := false

namespace Progress

/-- Takes the value of an option; asking for help takes none. -/
def setOption (p : Progress) (name : OptionName) (value : Text) : Except Refusal Progress :=
  match name with
  | .help => .error .invalid
  | .modifiers => .ok { p with modifiers := some value }
  | .indent =>
    match readInteger value with
    | .ok i => .ok { p with indent := i }
    | .error _ => .error .invalid
  | .level =>
    match LogLevel.ofName? value with
    | some l => .ok { p with level := l }
    | none => .error .invalid

/-- What follows the short spelling of help in one argument: further letters,
each an option without a value.  One that is none leaves help asked for. -/
def shortHelpRefusal : Text → Refusal
  | 'h' :: rest => shortHelpRefusal rest
  | '=' :: _ | '-' :: _ => .invalid
  | _ => .help

def takeOption (p : Progress) (name : OptionName) (value : Option Text)
    (rest : List Argument) : Except Refusal (Progress × List Argument) :=
  match name, value, rest with
  | .help, none, _ => .error .help
  | name, some value, rest => do .ok (← p.setOption name value, rest)
  | name, none, .plain value :: rest => do .ok (← p.setOption name value, rest)
  | _, none, _ => .error .invalid

/-- Texts without the first mark of the end of the options among them. -/
def unmarked (texts : List Text) : List Text := texts.erase separator

/-- The texts up to and with the first plain argument and the marks after it,
and the others. -/
def splitFirst (run : List Argument) : List Argument × List Argument :=
  let marks := run.takeWhile fun a => !a.isPlain
  match run.dropWhile fun a => !a.isPlain with
  | [] => (marks, [])
  | first :: rest =>
    (marks ++ first :: rest.takeWhile fun a => !a.isPlain, rest.dropWhile fun a => !a.isPlain)

def texts (run : List Argument) : List Text := run.filterMap Argument.plainText?

/-- Takes a run of plain arguments.  The documents are served only together with
the schema, or after it; what cannot be served is surplus. -/
def takeRun (p : Progress) (run : List Argument) : Progress :=
  let (first, more) := splitFirst run
  if !run.any Argument.isPlain then { p with surplus := true }
  else
    match p.schema, p.documents with
    | none, _ =>
      let p := { p with schema := (unmarked (texts first)).head? }
      if more.isEmpty then p else { p with documents := some (unmarked (texts more)) }
    | some _, none => { p with documents := some (unmarked (texts run)) }
    | some _, some _ => { p with surplus := true }

/-- Consumes arguments.  The fuel is their number. -/
def consume (p : Progress) : Nat → List Argument → Except Refusal Progress
  | _, [] => .ok p
  | 0, _ => .ok p
  | fuel + 1, .option name value :: rest => do
    let (p, rest) ← p.takeOption name value rest
    p.consume fuel rest
  | _ + 1, .shortHelp more :: _ => .error (shortHelpRefusal more)
  | fuel + 1, .unknown _ :: rest => { p with surplus := true }.consume fuel rest
  | fuel + 1, args =>
    let isRun (a : Argument) : Bool := a.plainText?.isSome
    (p.takeRun (args.takeWhile isRun)).consume fuel (args.dropWhile isRun)

def finish (p : Progress) : Except Refusal Options :=
  match p.schema, p.documents with
  | some schema, some documents =>
    if p.surplus then .error .invalid
    else .ok ⟨schema, documents, p.modifiers, p.indent, p.level⟩
  | _, _ => .error .invalid

end Progress

/-- Reads a command line; `indent` and `level` hold where it does not say
otherwise. -/
def readOptions (indent : Int) (level : LogLevel) (args : List Text) :
    Except Refusal Options := do
  let args ← classifyAll args
  let start : Progress := { indent := indent, level := level }
  (← start.consume args.length args).finish

end CommandLine
end XmlHarvest
