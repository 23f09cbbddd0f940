import XmlHarvest.Text.Digit
import XmlHarvest.Value.Timestamp

/-! # Dates and times in YAML

A date is written as year, month and day, and may be followed by a time of day
and a zone.  Whether the numbers are those of a date is not looked at here. -/
set_option autoImplicit false

namespace XmlHarvest.Yaml

def isDigit (c : CodePoint) : Bool := 48 ≤ c.toNat && c.toNat ≤ 57

/-- A number of `least` to `most` digits, and the rest. -/
def digits? (least most : Nat) (cs : Text) : Option (Nat × Text) :=
  let ds := (cs.take most).takeWhile isDigit
  if ds.length < least then none else some (Text.decimalValue ds, cs.drop ds.length)

def afterMark? (mark : CodePoint) : Text → Option (Text)
  | c :: rest => if c == mark then some rest else none
  | [] => none

def isTimeGap (c : CodePoint) : Bool := c == ' ' || c == '\t'

def distance? (cs : Text) : Option Nat := do
  let (hours, rest) ← digits? 1 2 cs
  match rest with
  | [] => some (hours * 3600)
  | ':' :: more =>
    match ← digits? 2 2 more with
    | (minutes, []) => some (hours * 3600 + minutes * 60)
    | _ => none
  | _ => none

def zone? : Text → Option Int
  | ['Z'] => some 0
  | '+' :: rest => (distance? rest).map Int.ofNat
  | '-' :: rest => (distance? rest).map fun n => -Int.ofNat n
  | _ => none

def microseconds (ds : Text) : Nat :=
  Text.decimalValue ((ds ++ List.replicate 6 (CodePoint.char '0')).take 6)

def timeOfDay? (cs : Text) : Option TimeOfDay := do
  let (hour, rest) ← digits? 1 2 cs
  let (minute, rest) ← digits? 2 2 (← afterMark? ':' rest)
  let (second, rest) ← digits? 2 2 (← afterMark? ':' rest)
  let (fraction, rest) := match rest with
    | '.' :: more => (more.takeWhile isDigit, more.dropWhile isDigit)
    | _ => ([], rest)
  let micro := microseconds fraction
  match rest with
  | [] => some ⟨hour, minute, second, micro, none⟩
  | _ => some ⟨hour, minute, second, micro, some (← zone? (rest.dropWhile isTimeGap))⟩

def timestamp? (cs : Text) : Option Timestamp := do
  let (year, rest) ← digits? 4 4 cs
  let (month, rest) ← digits? 1 2 (← afterMark? '-' rest)
  let (day, rest) ← digits? 1 2 (← afterMark? '-' rest)
  match rest with
  | [] => some ⟨year, month, day, none⟩
  | 'T' :: time | 't' :: time => some ⟨year, month, day, some (← timeOfDay? time)⟩
  | c :: _ =>
    if isTimeGap c then
      some ⟨year, month, day, some (← timeOfDay? (rest.dropWhile isTimeGap))⟩
    else none

/-- Whether a plain scalar is a date, which takes two digits for month and day,
or a date and time. -/
def isTimestamp (cs : Text) : Bool :=
  match timestamp? cs with
  | some t => t.time.isSome || cs.length == 10
  | none => false

end XmlHarvest.Yaml
