import XmlHarvest.Number.Reading
import XmlHarvest.Text.Case
import XmlHarvest.Text.Quoted
import XmlHarvest.Text.Split
import XmlHarvest.Value.Basic
import XmlHarvest.Yaml.Timestamp
import XmlHarvest.Yaml.Token

/-! # Scalars and their tags

A plain scalar is null, a truth value, a number, a mark or a text by its form.
The forms are those of YAML 1.1: `yes` and `off` are truth values, `010` is
octal, `1:30` counts in sixties, and `1e3` is a text. -/
set_option autoImplicit false

namespace XmlHarvest.Yaml

inductive Tag where
  | null
  | bool
  | int
  | float
  | timestamp
  | merge
  | value
  | str
  | seq
  | map
  | binary
  | omap
  | pairs
  | set
  | other
  deriving DecidableEq, Repr

namespace Tag

def names : List (Text × Tag) := [
  ("null", null), ("bool", bool), ("int", int), ("float", float), ("timestamp", timestamp),
  ("merge", merge), ("value", value), ("str", str), ("seq", seq), ("map", map),
  ("binary", binary), ("omap", omap), ("pairs", pairs), ("set", set)]

def ofText (cs : Text) : Tag :=
  match Text.afterStart? "tag:yaml.org,2002:" cs with
  | some name => (names.lookup name).getD other
  | none => other

end Tag

def isDigitOrLow (c : CodePoint) : Bool := isDigit c || c == '_'

def afterDigits? : Text → Option Text
  | c :: rest => if isDigit c then some (rest.dropWhile isDigitOrLow) else none
  | [] => none

def dropSign : Text → Text
  | c :: rest => if c == '-' || c == '+' then rest else c :: rest
  | [] => []

def isExponent : Text → Bool
  | [] => true
  | e :: s :: d :: rest =>
    (e == 'e' || e == 'E') && (s == '-' || s == '+') && isDigit d && rest.all isDigit
  | _ => false

/-- One or two digits that count less than sixty. -/
def isSixtieth : Text → Bool
  | [d] => isDigit d
  | [t, d] => CodePoint.char '0' ≤ t && t ≤ CodePoint.char '5' && isDigit d
  | _ => false

def isSixties : Text → Bool
  | ':' :: rest => (Text.splitOn (.char ':') rest).all isSixtieth
  | _ => false

def isFloat (cs : Text) : Bool :=
  let body := dropSign cs
  (match afterDigits? body with
    | some ('.' :: rest) => isExponent (rest.dropWhile isDigitOrLow)
    | some rest =>
      isSixties (rest.takeWhile (· != CodePoint.char '.')) &&
        (match rest.dropWhile (· != CodePoint.char '.') with
          | '.' :: tail => tail.all isDigitOrLow
          | _ => false)
    | none => false) ||
  (match cs with
    | '.' :: rest =>
      match afterDigits? rest with
      | some tail => isExponent tail
      | none => false
    | _ => false) ||
  ([".inf", ".Inf", ".INF"] : List Text).contains body ||
  ([".nan", ".NaN", ".NAN"] : List Text).contains cs

def isHexDigit (c : CodePoint) : Bool :=
  isDigit c || (CodePoint.char 'a' ≤ c && c ≤ CodePoint.char 'f') ||
    (CodePoint.char 'A' ≤ c && c ≤ CodePoint.char 'F')

/-- At least one character, all of them in the class or an underscore. -/
def isRun (p : CodePoint → Bool) (cs : Text) : Bool :=
  !cs.isEmpty && cs.all fun c => p c || c == '_'

def isInt (cs : Text) : Bool :=
  let body := dropSign cs
  match body with
  | ['0'] => true
  | '0' :: 'b' :: rest => isRun (fun c => c == '0' || c == '1') rest
  | '0' :: 'x' :: rest => isRun isHexDigit rest
  | '0' :: rest => isRun (fun c => CodePoint.char '0' ≤ c && c ≤ CodePoint.char '7') rest
  | _ =>
    match afterDigits? body with
    | some [] => true
    | some rest => isSixties rest
    | none => false

def truths : List (Text × Bool) := [
  ("yes", true), ("no", false), ("true", true), ("false", false), ("on", true), ("off", false)]

def truth? (cs : Text) : Option Bool :=
  let low := cs.map CodePoint.toLower
  let capital := match low with
    | c :: rest => c.toUpper :: rest
    | [] => []
  if cs == low || cs == low.map CodePoint.toUpper || cs == capital then
    truths.lookup low
  else none

def implicitTag (cs : Text) : Tag :=
  if (["", "~", "null", "Null", "NULL"] : List Text).contains cs then .null
  else if (truth? cs).isSome then .bool
  else if isFloat cs then .float
  else if isInt cs then .int
  else if isTimestamp cs then .timestamp
  else if cs == "<<" then .merge
  else if cs == "=" then .value
  else .str

def inBase? (base : Nat) (cs : Text) : Option Nat :=
  let digit? (c : CodePoint) : Option Nat :=
    let n := c.toLower.toNat
    if 48 ≤ n && n ≤ 57 then some (n - 48) else if 97 ≤ n && n ≤ 102 then some (n - 87) else none
  if cs.isEmpty then none
  else
    cs.foldl (fun acc? c => do
      let acc ← acc?
      let d ← digit? c
      if d < base then some (acc * base + d) else none) (some 0)

def readInBase (base : Nat) (cs : Text) : Except Fault Int :=
  match inBase? base cs with
  | some n => .ok n
  | none => .error (.notInteger base (Text.excerpt cs))

def readDecimal (cs : Text) : Except Fault Int :=
  match readInteger cs with
  | .ok i => .ok i
  | .error (.tooLong n) => .error (.longNumeral n)
  | .error .malformed => .error (.notInteger 10 (Text.excerpt cs))

def unsigned (cs : Text) : Bool × Text :=
  splitSign (cs.filter (· != '_'))

def readInt (cs : Text) : Except Fault Int := do
  let (negative, body) := unsigned cs
  let magnitude ← match body with
    | [] => .error .emptyNumeral
    | ['0'] => .ok 0
    | '0' :: 'b' :: rest => readInBase 2 rest
    | '0' :: 'x' :: rest => readInBase 16 rest
    | '0' :: _ => readInBase 8 body
    | _ =>
      if body.contains ':' then do
        let parts ← (Text.splitOn (.char ':') body).mapM readDecimal
        .ok (parts.foldl (fun n part => n * 60 + part) 0)
      else readDecimal body
  .ok (if negative then -magnitude else magnitude)

def readPart (cs : Text) : Except Fault Binary64 :=
  match readBinary64? cs with
  | some x => .ok x
  | none => .error (.notNumber (Text.quote cs))

/-- The sum of parts, the last of which counts `unit`, the one before it sixty
times as much, and so on; `parts` are last first. -/
def sumSixties : Binary64 → Nat → List Binary64 → Binary64
  | acc, _, [] => acc
  | acc, unit, x :: rest => sumSixties (acc.plus (x.times unit)) (unit * 60) rest

def readFloat (cs : Text) : Except Fault Binary64 := do
  let (negative, body) := unsigned (Text.lower cs)
  let magnitude ←
    if cs.all (· == '_') then .error .emptyNumeral
    else if body == ".inf" then .ok (.infinite false)
    else if body == ".nan" then .ok .nan
    else if body.contains ':' then do
      let parts ← (Text.splitOn (.char ':') body).mapM readPart
      .ok (sumSixties .zero 1 parts.reverse)
    else readPart body
  .ok (if negative then magnitude.negate else magnitude)

def readTimestamp (cs : Text) : Except Fault Timestamp :=
  match timestamp? cs with
  | none => .error .notTimestamp
  | some t =>
    match t.problem? with
    | some problem => .error (.timestamp problem)
    | none => .ok t

def scalarValue (tag : Tag) (cs : Text) : Except ReadFault Value :=
  let lift {α : Type} (x : Except Fault α) : Except ReadFault α := x.mapError .fault
  match tag with
  | .null => .ok .null
  | .bool =>
    let word := Text.lower cs
    match truths.lookup word with
    | some b => .ok (.bool b)
    | none => .error (.fault (.notTruth word))
  | .int => do .ok (.int (← lift (readInt cs)))
  | .float => do .ok (.float (← lift (readFloat cs)))
  | .str => .ok (.str cs)
  | .timestamp => do .ok (.scalar (.time (← lift (readTimestamp cs))))
  | .binary => .error (.fault .foreign)
  | .merge | .value | .seq | .map | .omap | .pairs | .set | .other => .error .malformed

example : implicitTag "1e3" = .str ∧ implicitTag "010" = .int := by decide +kernel

end XmlHarvest.Yaml
