import XmlHarvest.Number.Reading
import XmlHarvest.Fault
import XmlHarvest.Value.Basic

/-! # Reading JSON

The usual grammar, with `NaN`, `Infinity` and `-Infinity` as further numbers.
A number without fraction and exponent is an integer.  Of two members of one
name the last counts. -/
set_option autoImplicit false

namespace XmlHarvest.Json

/-- A text is no JSON, or it holds a number that cannot be read. -/
inductive ReadFault where
  | malformed
  | number (f : Fault)
  deriving DecidableEq, Repr

def isSpace (c : CodePoint) : Bool := c == ' ' || c == '\t' || c == '\n' || c == '\r'

def skipSpace (cs : Text) : Text := cs.dropWhile isSpace

def hex4? : Text → Option (Nat × Text)
  | a :: b :: c :: d :: rest =>
    match hexDigit? a, hexDigit? b, hexDigit? c, hexDigit? d with
    | some w, some x, some y, some z => some (((w * 16 + x) * 16 + y) * 16 + z, rest)
    | _, _, _, _ => none
  | _ => none
where
  hexDigit? (c : CodePoint) : Option Nat :=
    let n := c.toNat
    if 48 ≤ n && n ≤ 57 then some (n - 48)
    else if 97 ≤ n && n ≤ 102 then some (n - 87)
    else if 65 ≤ n && n ≤ 70 then some (n - 55)
    else none

def shortEscape? : CodePoint → Option CodePoint
  | '"' => some '"'
  | '\\' => some '\\'
  | '/' => some '/'
  | 'b' => some '\x08'
  | 'f' => some '\x0c'
  | 'n' => some '\n'
  | 'r' => some '\r'
  | 't' => some '\t'
  | _ => none

/-- The code point of an escape by number; two halves of a pair are joined. -/
def unicodeEscape? (cs : Text) : Option (CodePoint × Text) :=
  match hex4? cs with
  | none => none
  | some (n, rest) =>
    if 0xD800 ≤ n && n < 0xDC00 then
      match rest with
      | '\\' :: 'u' :: more =>
        match hex4? more with
        | some (m, tail) =>
          if 0xDC00 ≤ m && m < 0xE000 then
            some (CodePoint.ofNat (0x10000 + (n - 0xD800) * 0x400 + (m - 0xDC00)), tail)
          else some (CodePoint.ofNat n, rest)
        | none => none
      | _ => some (CodePoint.ofNat n, rest)
    else some (CodePoint.ofNat n, rest)

/-- A string after its quote.  The fuel is the length of the text. -/
def string : Nat → Text → Except ReadFault (Text × Text)
  | 0, _ => .error .malformed
  | _, [] => .error .malformed
  | _ + 1, '"' :: rest => .ok ([], rest)
  | fuel + 1, '\\' :: 'u' :: rest =>
    match unicodeEscape? rest with
    | some (c, tail) => do
      let (cs, more) ← string fuel tail
      .ok (c :: cs, more)
    | none => .error .malformed
  | fuel + 1, '\\' :: e :: rest =>
    match shortEscape? e with
    | some c => do
      let (cs, more) ← string fuel rest
      .ok (c :: cs, more)
    | none => .error .malformed
  | fuel + 1, c :: rest =>
    if c.toNat < 32 || c == '\\' then .error .malformed
    else do
      let (cs, more) ← string fuel rest
      .ok (c :: cs, more)

def exponent? (cs : Text) : Option (Int × Text) :=
  let (negative, body) := splitSign cs
  match body.takeWhile Text.isAsciiDigit with
  | [] => none
  | ds => some (signed negative (Text.decimalValue ds), body.dropWhile Text.isAsciiDigit)

def number (negative : Bool) (cs : Text) : Except ReadFault (Value × Text) :=
  let whole : Text := match cs with
    | '0' :: _ => ['0']
    | _ => cs.takeWhile Text.isAsciiDigit
  if whole.isEmpty then .error .malformed
  else
    let rest := cs.drop whole.length
    let (fraction, rest) := match rest with
      | '.' :: d :: more =>
        if Text.isAsciiDigit d then
          (d :: more.takeWhile Text.isAsciiDigit, more.dropWhile Text.isAsciiDigit)
        else ([], rest)
      | _ => ([], rest)
    let (power?, rest) := match rest with
      | 'e' :: more | 'E' :: more =>
        match exponent? more with
        | some (p, tail) => (some p, tail)
        | none => (none, rest)
      | _ => (none, rest)
    if fraction.isEmpty && power?.isNone then
      if digitLimit < whole.length then .error (.number (.longNumeral whole.length))
      else .ok (.int (signed negative (Text.decimalValue whole)), rest)
    else
      .ok (.float (.ofDecimal negative (Text.decimalValue (whole ++ fraction))
        (power?.getD 0 - fraction.length)), rest)

def literals : List (Text × Value) :=
  [("null", .null), ("true", .bool true), ("false", .bool false),
   ("NaN", .float .nan), ("Infinity", .float (.infinite false)),
   ("-Infinity", .float (.infinite true))]

def atom (cs : Text) : Except ReadFault (Value × Text) :=
  match literals.find? fun (word, _) => word.isPrefixOf cs with
  | some (word, v) => .ok (v, cs.drop word.length)
  | none =>
    match cs with
    | '-' :: rest => number true rest
    | _ => number false cs

mutual

/-- A value.  The fuel bounds the number of characters. -/
def value : Nat → Text → Except ReadFault (Value × Text)
  | 0, _ => .error .malformed
  | _ + 1, '"' :: rest => do
    let (s, more) ← string (rest.length + 1) rest
    .ok (.str s, more)
  | fuel + 1, '[' :: rest =>
    match skipSpace rest with
    | ']' :: more => .ok (.list [], more)
    | cs => do
      let (vs, more) ← items fuel cs
      .ok (.list vs, more)
  | fuel + 1, '\x7b' :: rest =>
    match skipSpace rest with
    | '\x7d' :: more => .ok (.map [], more)
    | cs => do
      let (entries, more) ← members fuel cs
      .ok (.ofEntries entries, more)
  | _ + 1, cs => atom cs

def items : Nat → Text → Except ReadFault (List Value × Text)
  | 0, _ => .error .malformed
  | fuel + 1, cs => do
    let (v, rest) ← value fuel cs
    match skipSpace rest with
    | ']' :: more => .ok ([v], more)
    | ',' :: more => do
      let (vs, tail) ← items fuel (skipSpace more)
      .ok (v :: vs, tail)
    | _ => .error .malformed

def members : Nat → Text → Except ReadFault (List (Scalar × Value) × Text)
  | 0, _ => .error .malformed
  | fuel + 1, '"' :: rest => do
    let (key, afterKey) ← string (rest.length + 1) rest
    match skipSpace afterKey with
    | ':' :: afterColon => do
      let (v, afterValue) ← value fuel (skipSpace afterColon)
      let entry : Scalar × Value := (.str key, v)
      match skipSpace afterValue with
      | '\x7d' :: more => .ok ([entry], more)
      | ',' :: more => do
        let (entries, tail) ← members fuel (skipSpace more)
        .ok (entry :: entries, tail)
      | _ => .error .malformed
    | _ => .error .malformed
  | _ + 1, _ => .error .malformed

end

def read (cs : Text) : Except ReadFault Value := do
  let (v, rest) ← value (cs.length + 1) (skipSpace cs)
  if (skipSpace rest).isEmpty then .ok v else .error .malformed

end XmlHarvest.Json
