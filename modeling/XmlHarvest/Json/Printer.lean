import XmlHarvest.Text.Quoted
import XmlHarvest.Value.Text

/-! # Writing JSON

A value on one line, or with one line for each item and member.  Texts keep
their characters; only quotes, backslashes and controls are escaped.  Keys that
are no texts are written as texts. -/
set_option autoImplicit false

namespace XmlHarvest.Json

def escapeChar (c : CodePoint) : Text :=
  if c == '"' then ['\\', '"']
  else if c == '\\' then ['\\', '\\']
  else if c == '\n' then ['\\', 'n']
  else if c == '\r' then ['\\', 'r']
  else if c == '\t' then ['\\', 't']
  else if c == '\x0c' then ['\\', 'f']
  else if c == '\x08' then ['\\', 'b']
  else if c.toNat < 32 then '\\' :: 'u' :: Text.hexDigits 4 c.toNat
  else [c]

def quoted (s : Text) : Text :=
  "\"" ++ s.flatMap escapeChar ++ ("\"" : Text)

def numberText : Binary64 → Text
  | .nan => "NaN"
  | .infinite false => "Infinity"
  | .infinite true => "-Infinity"
  | x => x.text

def scalarText : Scalar → Except Fault Text
  | .null => .ok "null"
  | .bool true => .ok "true"
  | .bool false => .ok "false"
  | .int i => integerText i
  | .float x => .ok (numberText x)
  | .str s => .ok (quoted s)
  | .time t => .error (.notWritable t.typeName)

/-- A key: a text in quotes, whatever the scalar. -/
def keyText : Scalar → Except Fault Text
  | .str s => .ok (quoted s)
  | .time t => .error (.noKey t.typeName)
  | other => do .ok (quoted (← scalarText other))

/-- How items are laid out: on one line, or on lines of their own. -/
inductive Layout where
  | compact
  | indented (width : Nat)

namespace Layout

/-- The layout for an indentation; without one, everything is on one line.
Widths that no text can have are refused. -/
def ofIndent (indent : Int) : Except Fault Layout :=
  if indent ≤ 0 then .ok compact
  else if twoTo 63 ≤ indent then .error .indentBeyondIndex
  else if twoTo 40 ≤ indent then .error .memory
  else .ok (indented indent.toNat)

def lineStart (l : Layout) (depth : Nat) : Text :=
  match l with
  | compact => ""
  | indented width => '\n' :: List.replicate (width * depth) (.char ' ')

def separator (l : Layout) (depth : Nat) : Text :=
  match l with
  | compact => ", "
  | indented _ => "," ++ l.lineStart depth

def enclose (l : Layout) (left right : Text) (depth : Nat) (parts : List Text) : Text :=
  match parts with
  | [] => left ++ right
  | _ => left ++ l.lineStart (depth + 1) ++ Text.joinWith (l.separator (depth + 1)) parts ++
      l.lineStart depth ++ right

end Layout

mutual

def valueText (l : Layout) (depth : Nat) : Value → Except Fault Text
  | .scalar s => scalarText s
  | .list items => do
    .ok (l.enclose "[" "]" depth (← itemTexts l (depth + 1) items))
  | .map entries => do
    .ok (l.enclose "\x7b" "\x7d" depth (← memberTexts l (depth + 1) entries))

def itemTexts (l : Layout) (depth : Nat) : List Value → Except Fault (List Text)
  | [] => .ok []
  | v :: rest => do
    let first ← valueText l depth v
    let others ← itemTexts l depth rest
    .ok (first :: others)

def memberTexts (l : Layout) (depth : Nat) : List (Scalar × Value) → Except Fault (List Text)
  | [] => .ok []
  | (k, v) :: rest => do
    let key ← keyText k
    let text ← valueText l depth v
    let others ← memberTexts l depth rest
    .ok ((key ++ ": " ++ text) :: others)

end

def text (l : Layout) (v : Value) : Except Fault Text := valueText l 0 v

end XmlHarvest.Json
