import XmlHarvest.Number.Binary64
import XmlHarvest.Text.Blank
import XmlHarvest.Text.Digit

/-! # Numbers written in texts

The whole-text grammar of integers, and the number that a text starts with.
Digits of every script count. -/
set_option autoImplicit false

namespace XmlHarvest

open Text

/-- The number of decimal digits from which on integers are neither read nor
written is one more than this. -/
def digitLimit : Nat := 4300

inductive IntegerFault where
  | malformed
  | tooLong (digits : Nat)
  deriving DecidableEq, Repr

/-- White space around an integer: the information separators do not count. -/
def isNumberBlank (c : CodePoint) : Bool :=
  isBlank c && !(28 ≤ c.toNat && c.toNat ≤ 31)

/-- The digits at the start of a text in which single underscores may separate
digits, and the rest.  None when an underscore is doubled or stands last. -/
def groupedDigits? : Text → Option (Text × Text)
  | [] => some ([], [])
  | '_' :: d :: rest =>
    if isDigit d then (groupedDigits? rest).map fun (ds, tail) => (d :: ds, tail) else none
  | c :: rest =>
    if isDigit c then (groupedDigits? rest).map fun (ds, tail) => (c :: ds, tail)
    else if c == '_' then none
    else some ([], c :: rest)

def splitSign : Text → Bool × Text
  | '-' :: rest => (true, rest)
  | '+' :: rest => (false, rest)
  | cs => (false, cs)

def signed (negative : Bool) (n : Nat) : Int :=
  if negative then -(n : Int) else n

/-- An integer that fills the whole text: white space, a sign, digits grouped
by underscores, white space. -/
def readInteger (cs : Text) : Except IntegerFault Int :=
  let (negative, body) := splitSign (cs.dropWhile isNumberBlank)
  match body with
  | [] => .error .malformed
  | c :: _ =>
    if !isDigit c then .error .malformed
    else
      match groupedDigits? body with
      | none => .error .malformed
      | some (ds, tail) =>
        if digitLimit < ds.length then .error (.tooLong ds.length)
        else if tail.all isNumberBlank then .ok (signed negative (decimalValue ds))
        else .error .malformed

/-- A number at the start of a text: a sign, the digits before the point and
those after it.  At least one of the two runs of digits is not empty. -/
structure Numeral where
  negative : Bool
  whole : Text
  fraction : Text
  deriving DecidableEq, Repr

def leadingInteger? (cs : Text) : Option Numeral :=
  let (negative, body) := splitSign cs
  match body.takeWhile isDigit with
  | [] => none
  | ds => some ⟨negative, ds, []⟩

def leadingDecimal? (cs : Text) : Option Numeral :=
  let (negative, body) := splitSign cs
  let whole := body.takeWhile isDigit
  let fraction := match body.dropWhile isDigit with
    | '.' :: rest => rest.takeWhile isDigit
    | _ => []
  match whole, fraction with
  | [], [] => none
  | _, _ => some ⟨negative, whole, fraction⟩

namespace Numeral

def toInt (n : Numeral) : Int := signed n.negative (decimalValue n.whole)

def toBinary64 (n : Numeral) : Binary64 :=
  .ofDecimal n.negative (decimalValue (n.whole ++ n.fraction)) (-(n.fraction.length : Int))

end Numeral

/-- The digits of a decimal number without sign, its fraction and its
exponent, and the rest. -/
structure DecimalText where
  whole : Text
  fraction : Text
  power : Int
  rest : Text

def decimalText? (cs : Text) : Option DecimalText :=
  let whole := cs.takeWhile isDigit
  let (fraction, rest) := match cs.dropWhile isDigit with
    | '.' :: more => (more.takeWhile isDigit, more.dropWhile isDigit)
    | other => ([], other)
  if whole.isEmpty && fraction.isEmpty then none
  else
    match rest with
    | e :: more =>
      if e == 'e' || e == 'E' then
        let (negative, body) := splitSign more
        match body.takeWhile isDigit with
        | [] => none
        | ds => some ⟨whole, fraction, signed negative (decimalValue ds), body.dropWhile isDigit⟩
      else some ⟨whole, fraction, 0, rest⟩
    | [] => some ⟨whole, fraction, 0, []⟩

/-- A double-precision number that fills the whole text: a decimal, an
infinity or a NaN, with a sign and white space around it. -/
def readBinary64? (cs : Text) : Option Binary64 :=
  let (negative, body) := splitSign (stripOf isNumberBlank cs)
  let word : Text := body.map CodePoint.toLower
  if word == "inf" || word == "infinity" then some (.infinite negative)
  else if word == "nan" then some .nan
  else
    match decimalText? body with
    | some ⟨whole, fraction, power, []⟩ =>
      some (.ofDecimal negative (decimalValue (whole ++ fraction)) (power - fraction.length))
    | _ => none

example : (readInteger " -1_0").toOption = some (-10) := by decide +kernel

end XmlHarvest
