import XmlHarvest.Number.Reading
import XmlHarvest.Text.Quoted
import XmlHarvest.Text.Utf8
import XmlHarvest.Value.Timestamp

/-! # Faults

Failures of a single computation: a conversion that has no result, a call with
the wrong number of arguments, bytes that are no text, a file that cannot be
read, or a failure reported by a custom modifier.  A fault knows nothing of
schemas and documents. -/
set_option autoImplicit false

namespace XmlHarvest

inductive FaultKind where
  | value
  | type
  | overflow
  | attribute
  | runtime
  | key
  | index
  | decoding
  | encoding
  | memory
  | missingFile
  | directoryFile
  | parentNotDirectory
  | permission
  /-- Any other failure of the system. -/
  | system
  /-- A failure of another class, which is not one of the system. -/
  | other (className : Text)
  /-- Not a failure: what happens is not told. -/
  | foreign
  deriving DecidableEq, Repr

def FaultKind.isSystem : FaultKind → Bool
  | missingFile | directoryFile | parentNotDirectory | permission | system => true
  | _ => false

structure SystemProblem where
  number : Nat
  reason : Text
  deriving DecidableEq, Repr

namespace SystemProblem

def kind (p : SystemProblem) : FaultKind :=
  if p.number == 2 then .missingFile
  else if p.number == 20 then .parentNotDirectory
  else if p.number == 21 then .directoryFile
  else if p.number == 1 || p.number == 13 then .permission
  else .system

/-- That nothing is there, or no directory above it, that a descriptor is bad,
or that links lead nowhere. -/
def isAbsence (p : SystemProblem) : Bool := [2, 9, 20, 40].contains p.number

def message (path : Text) (p : SystemProblem) : Text :=
  "[Errno " ++ toString p.number ++ "] " ++ p.reason ++ ": " ++ Text.quote path

def noEntry : SystemProblem := ⟨2, "No such file or directory"⟩

def noAccess : SystemProblem := ⟨13, "Permission denied"⟩

def noDirectory : SystemProblem := ⟨20, "Not a directory"⟩

def isDirectory : SystemProblem := ⟨21, "Is a directory"⟩

def longName : SystemProblem := ⟨36, "File name too long"⟩

end SystemProblem

inductive FileProblem where
  | system (problem : SystemProblem)
  /-- The path contains the character number zero. -/
  | zeroCharacter
  | unencodable (surrogates : Text.Utf8.Surrogates)
  deriving DecidableEq, Repr

namespace FileProblem

def kind : FileProblem → FaultKind
  | system p => p.kind
  | zeroCharacter => .value
  | unencodable _ => .encoding

def isAbsence : FileProblem → Bool
  | system p => p.isAbsence
  | zeroCharacter | unencodable _ => true

def message (path : Text) : FileProblem → Text
  | system p => p.message path
  | zeroCharacter => "embedded null byte"
  | unencodable surrogates => surrogates.message

end FileProblem

inductive Fault where
  /-- A text of digits is too long to be read as an integer. -/
  | longNumeral (digits : Nat)
  /-- An integer has too many digits to be written. -/
  | longInteger
  /-- A text, given here in quotes, writes no integer in the base. -/
  | notInteger (base : Nat) (literal : Text)
  /-- A text, given here in quotes, writes no number. -/
  | notNumber (literal : Text)
  /-- Values of the named type have no integer. -/
  | noInteger (typeName : Text)
  | infinityToInteger
  | nanToInteger
  | integerBeyondFloat
  | integerQuotientBeyondFloat
  | joinWithoutSeparator
  /-- A call leaves out the named parameters. -/
  | missingArguments (callee : Text) (names : List Text)
  | extraArguments (callee : Text) (takes given : Nat)
  /-- Bytes that are not UTF-8. -/
  | decoding (refusal : Text.Utf8.Refusal)
  /-- A text that has no bytes. -/
  | encoding (surrogates : Text.Utf8.Surrogates)
  | file (problem : FileProblem) (path : Text)
  /-- The name of a module begins with a dot. -/
  | relativeModule (name : Text)
  /-- A word, in lower case, is no truth value. -/
  | notTruth (word : Text)
  /-- A numeral has no character where one is needed. -/
  | emptyNumeral
  /-- A text has not the form of a date and time. -/
  | notTimestamp
  | timestamp (problem : TimestampProblem)
  /-- Values of the named type cannot be written as JSON. -/
  | notWritable (typeName : Text)
  /-- Values of the named type cannot be the key of a JSON member. -/
  | noKey (typeName : Text)
  | indentBeyondIndex
  | memory
  /-- A value is none of those that are told apart here. -/
  | foreign
  | raised (kind : FaultKind) (message : Text)
  /-- A failure of a custom modifier whose text cannot be formed because of
  `cause`. -/
  | wordless (kind : FaultKind) (cause : Fault)
  deriving DecidableEq, Repr

namespace Fault

def kind : Fault → FaultKind
  | longNumeral _ | longInteger | notInteger _ _ | notNumber _ | nanToInteger
  | joinWithoutSeparator => .value
  | noInteger _ | missingArguments _ _ | extraArguments _ _ _ => .type
  | infinityToInteger | integerBeyondFloat | integerQuotientBeyondFloat => .overflow
  | decoding _ => .decoding
  | encoding _ => .encoding
  | file problem _ => problem.kind
  | relativeModule _ | notWritable _ | noKey _ => .type
  | notTruth _ => .key
  | emptyNumeral => .index
  | notTimestamp => .attribute
  | timestamp _ => .value
  | indentBeyondIndex => .overflow
  | memory => .memory
  | foreign => .foreign
  | raised k _ | wordless k _ => k

def isSystem (f : Fault) : Bool := f.kind.isSystem

/-- Names in quotes as an enumeration: `a`, `a and b`, `a, b, and c`. -/
def enumeration (names : List Text) : Text :=
  let shown : List Text := names.map fun n => "'" ++ n ++ "'"
  match shown.reverse with
  | [] => ""
  | [a] => a
  | [b, a] => a ++ " and " ++ b
  | last :: others => Text.joinWith ", " others.reverse ++ ", and " ++ last

def plural (n : Nat) (noun : Text) : Text :=
  toString n ++ " " ++ noun ++ (if n == 1 then "" else "s")

def limitAdvice : Text := "use sys.set_int_max_str_digits() to increase the limit"

def message : Fault → Text
  | longNumeral n =>
    "Exceeds the limit (4300 digits) for integer string conversion: value has " ++ toString n ++
      " digits; " ++ limitAdvice
  | longInteger =>
    "Exceeds the limit (4300 digits) for integer string conversion; " ++ limitAdvice
  | notInteger base literal =>
    "invalid literal for int() with base " ++ toString base ++ ": " ++ literal
  | notNumber literal => "could not convert string to float: " ++ literal
  | noInteger t =>
    "int() argument must be a string, a bytes-like object or a real number, not '" ++ t ++ "'"
  | infinityToInteger => "cannot convert float infinity to integer"
  | nanToInteger => "cannot convert float NaN to integer"
  | integerBeyondFloat => "int too large to convert to float"
  | integerQuotientBeyondFloat => "integer division result too large for a float"
  | joinWithoutSeparator => "join needs at least one value and a separator"
  | missingArguments callee names =>
    callee ++ "() missing " ++ plural names.length "required positional argument" ++ ": " ++
      enumeration names
  | extraArguments callee takes given =>
    callee ++ "() takes " ++ plural takes "positional argument" ++ " but " ++ toString given ++
      (if given == 1 then " was given" else " were given")
  | decoding refusal => refusal.message
  | encoding surrogates => surrogates.message
  | file problem path => problem.message path
  | relativeModule name =>
    "the 'package' argument is required to perform a relative import for " ++ Text.quote name
  | notTruth word => Text.quote word
  | emptyNumeral => "string index out of range"
  | notTimestamp => "'NoneType' object has no attribute 'groupdict'"
  | timestamp problem => problem.message
  | notWritable t => "Object of type " ++ t ++ " is not JSON serializable"
  | noKey t => "keys must be str, int, float, bool or None, not " ++ t
  | indentBeyondIndex => "cannot fit 'int' into an index-sized integer"
  | memory => ""
  | foreign => ""
  | raised _ m => m
  | wordless _ _ => ""

def text? : Fault → Except Fault Text
  | wordless _ cause => .error cause
  | fault => .ok fault.message

/-- The message with which a failure of the system is reported, or what is left
where only failures of the system are reported. -/
def systemText? (f : Fault) : Except Fault Text :=
  if f.isSystem then f.text? else .error f

example : (missingArguments "f" ["a", "b"]).message =
    "f() missing 2 required positional arguments: 'a' and 'b'" := by decide +kernel

end Fault
end XmlHarvest
