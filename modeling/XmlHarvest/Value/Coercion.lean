import XmlHarvest.Number.Reading
import XmlHarvest.Text.Blank
import XmlHarvest.Value.Text

/-! # Lenient readings of values

Texts and numbers made of any value.  Null reads as nothing at all; other
values are read through their text, and a number is whatever their text starts
with. -/
set_option autoImplicit false

namespace XmlHarvest.Value

/-- The text of a value, that of null being empty. -/
def plainText : Value → Except Fault Text
  | .scalar .null => .ok ""
  | v => v.text?

/-- Null, or a value whose text has nothing but white space. -/
def isBlank : Value → Except Fault Bool
  | .scalar .null => .ok true
  | v => do .ok (Text.isBlankText (← v.text?))

def digitsOnly (v : Value) : Except Fault Text := do
  .ok ((← plainText v).filter Text.isAsciiDigit)

def squished (v : Value) : Except Fault Text := do
  .ok (Text.squished (← plainText v))

def truncated : Binary64 → Except Fault Int
  | .nan => .error .nanToInteger
  | .infinite _ => .error .infinityToInteger
  | .finite s m e => .ok (Binary64.truncate s m e)

/-- The integer that a text starts with, zero if there is none. -/
def leadingIntegerOf (s : Text) : Except Fault Int :=
  match leadingInteger? (Text.trim s) with
  | none => .ok 0
  | some n => if digitLimit < n.whole.length then .error (.longNumeral n.whole.length)
      else .ok n.toInt

/-- The number that a text starts with, zero if there is none. -/
def leadingNumberOf (s : Text) : Binary64 :=
  match leadingDecimal? (Text.trim s) with
  | none => .zero
  | some n => n.toBinary64

/-- A value as an integer: numbers lose their fraction, texts are read as far
as they are an integer. -/
def toInteger : Value → Except Fault Int
  | .scalar .null => .ok 0
  | .scalar (.bool b) => .ok (if b then 1 else 0)
  | .scalar (.int i) => .ok i
  | .scalar (.float x) => truncated x
  | v => do leadingIntegerOf (← v.text?)

/-- A value as a double-precision number; texts are read as far as they are a
decimal number. -/
def toNumber : Value → Except Fault Binary64
  | .scalar .null => .ok .zero
  | .scalar (.bool b) => .ok (Binary64.ofRatio false (if b then 1 else 0) 1)
  | .scalar (.int i) =>
    match Binary64.ofInt? i with
    | some x => .ok x
    | none => .error .integerBeyondFloat
  | .scalar (.float x) => .ok x
  | v => do .ok (leadingNumberOf (← v.text?))

end XmlHarvest.Value
